/-
**The cluster that `AllocCluster` returns.**

The search reads the first copy of the FAT sector by sector and passes over the clusters that have no
place in the data region. On a volume whose 32-bit numbers do not wrap it returns the least free
cluster, and clusters never share sectors with each other, with the FAT or with what lies behind the
volume. The FAT may hold anything.

* `allocCluster_least` — both, with the sectors of the clusters.
-/

import LaylaOS.Fs.Deletion
import LaylaOS.Fs.Trace

namespace LaylaOS.Fs

open LaylaOS.Lib

namespace Volume

/-- The numbers that describe the volume are 32 bits wide: the end of the FAT, the end of the volume,
and the numbers of the FAT entries. -/
structure Unwrapped (v : Volume) : Prop where
  perCluster : 0 < v.bpb.sectorsPerCluster
  tables : v.partitionLba + v.bpb.reservedSectors + v.bpb.fatCount * v.bpb.fatSize32 < 2 ^ 32
  volume : v.partitionLba + v.totalSectors ≤ 2 ^ 32
  entries : 128 * v.bpb.fatSize32 ≤ 2 ^ 32

/-- The clusters with a place in the data region and an entry in the FAT, from 3 on. -/
def usableClusters (v : Volume) : Set Nat :=
  {c | 3 ≤ c ∧ c < v.maxCluster ∧ c < 128 * v.bpb.fatSize32}

/-- Those whose FAT entry is 0, without its upper four bits. -/
def freeClusters (v : Volume) (d : Disk) : Set Nat :=
  {c ∈ v.usableClusters | v.fatEntry d 0 c &&& 0x0FFFFFFF = 0}

/-- The sectors of a cluster, of the copies of the FAT, and of the data region. -/
def clusterSectors (v : Volume) (c : Nat) : Finset Nat :=
  Finset.Ico (v.clusterToLBA c) (v.clusterToLBA c + v.bpb.sectorsPerCluster)

def fatSectors (v : Volume) : Finset Nat :=
  Finset.Ico v.fatLba (v.fatLba + v.bpb.fatCount * v.bpb.fatSize32)

def dataSectors (v : Volume) : Finset Nat :=
  Finset.Ico v.dataLba (v.partitionLba + v.totalSectors)

variable {v : Volume} {d : Disk}

/-! ### The search -/

theorem isFree_iff {c : Nat} (inTable : c < 128 * v.bpb.fatSize32) :
    v.isFree d c = true ↔ c ∈ v.freeClusters d := by
  rw [isFree, decide_eq_true_eq]
  show _ ↔ (3 ≤ c ∧ c < v.maxCluster ∧ c < 128 * v.bpb.fatSize32) ∧ _
  rw [Nat.and_two_pow_sub_one_eq_mod _ 28, fatEntry, readSector_place, Nat.zero_mul, Nat.zero_add]
  constructor
  · rintro ⟨low, high, zero⟩
    exact ⟨⟨low, high, inTable⟩, zero⟩
  · rintro ⟨⟨low, high, -⟩, zero⟩
    exact ⟨low, high, zero⟩

theorem allocCluster_cases (entries : 128 * v.bpb.fatSize32 ≤ 2 ^ 32) :
    (v.allocCluster d = 0 ∧ v.freeClusters d = ∅) ∨ IsLeast (v.freeClusters d) (v.allocCluster d) := by
  rw [allocCluster_eq_find entries]
  cases found : (List.range (128 * v.bpb.fatSize32)).find? (v.isFree d) with
  | none =>
    refine .inl ⟨rfl, Set.eq_empty_of_forall_notMem fun c free => ?_⟩
    have taken := List.find?_range_eq_none.mp found c free.1.2.2
    rw [(isFree_iff free.1.2.2).mpr free] at taken
    cases taken
  | some c =>
    obtain ⟨free, inTable, before⟩ := List.find?_range_eq_some.mp found
    rw [List.mem_range] at inTable
    refine .inr ⟨(isFree_iff inTable).mp free, fun other free' => ?_⟩
    by_contra less
    have taken := before other (Nat.not_le.mp less)
    rw [(isFree_iff free'.1.2.2).mpr free'] at taken
    cases taken

theorem allocCluster_eq_zero_iff (entries : 128 * v.bpb.fatSize32 ≤ 2 ^ 32) :
    v.allocCluster d = 0 ↔ v.freeClusters d = ∅ := by
  rcases allocCluster_cases (d := d) entries with ⟨zero, none⟩ | least
  · exact iff_of_true zero none
  · have low : 3 ≤ v.allocCluster d := least.1.1.1
    exact iff_of_false (by omega) (Set.nonempty_iff_ne_empty.mp ⟨_, least.1⟩)

/-! ### Where clusters lie -/

namespace Unwrapped

variable (unwrapped : v.Unwrapped)
include unwrapped

theorem fatLba_eq : v.fatLba = v.partitionLba + v.bpb.reservedSectors := by
  have tables := unwrapped.tables
  exact Nat.mod_eq_of_lt (by omega)

theorem dataLba_eq : v.dataLba = v.fatLba + v.bpb.fatCount * v.bpb.fatSize32 := by
  have tables := unwrapped.tables
  rw [← unwrapped.fatLba_eq] at tables
  exact Nat.mod_eq_of_lt tables

theorem cluster_fits {c : Nat} (low : 2 ≤ c) (high : c < v.maxCluster) :
    v.fatLba + v.clusterPlace c + v.bpb.sectorsPerCluster ≤ v.partitionLba + v.totalSectors := by
  have tables := unwrapped.tables
  have start := unwrapped.fatLba_eq
  have regions := unwrapped.dataLba_eq
  have offset : v.dataOffset = v.dataLba - v.partitionLba := by
    unfold dataOffset
    omega
  have below : c < 2 + if v.totalSectors > v.dataOffset then
      (v.totalSectors - v.dataOffset) / v.bpb.sectorsPerCluster else 0 :=
    high.trans_le (Nat.mod_le _ _)
  unfold clusterPlace
  split_ifs at below with room
  · have number : c - 2 + 1 ≤ (v.totalSectors - v.dataOffset) / v.bpb.sectorsPerCluster := by omega
    rw [Nat.le_div_iff_mul_le unwrapped.perCluster, Nat.succ_mul] at number
    omega
  · omega

theorem clusterToLBA_eq {c : Nat} (low : 2 ≤ c) (high : c < v.maxCluster) :
    v.clusterToLBA c = v.fatLba + v.clusterPlace c := by
  have positive := unwrapped.perCluster
  have whole := unwrapped.volume
  have fits := unwrapped.cluster_fits low high
  have word : v.clusterToLBA c < 2 ^ 32 := Nat.mod_lt _ (by decide)
  have lba := lba_eq (v := v) low (high.trans (Nat.mod_lt _ (by decide))) 0
  rwa [Nat.add_zero, Nat.add_zero, Nat.mod_eq_of_lt word, Nat.mod_eq_of_lt (by omega)] at lba

theorem clusterSectors_subset {c : Nat} (usable : c ∈ v.usableClusters) :
    v.clusterSectors c ⊆ v.dataSectors := by
  obtain ⟨low, high, -⟩ := usable
  have fits := unwrapped.cluster_fits (by omega) high
  rw [clusterSectors, unwrapped.clusterToLBA_eq (by omega) high, dataSectors, unwrapped.dataLba_eq]
  apply Finset.Ico_subset_Ico
  · exact Nat.add_le_add_left (Nat.le_add_right _ _) _
  · exact fits

theorem clusterSectors_disjoint : v.usableClusters.PairwiseDisjoint v.clusterSectors := by
  rintro c ⟨low, high, -⟩ c' ⟨low', high', -⟩ different
  refine Finset.disjoint_left.mpr fun sector here there => different ?_
  rw [clusterSectors, unwrapped.clusterToLBA_eq (by omega) high, Finset.mem_Ico] at here
  rw [clusterSectors, unwrapped.clusterToLBA_eq (by omega) high', Finset.mem_Ico] at there
  obtain ⟨i, rfl⟩ := Nat.exists_eq_add_of_le here.1
  apply clusterPlace_inj (v := v) (i := i) <;> omega

theorem clusterSectors_apart {c : Nat} (usable : c ∈ v.usableClusters) :
    Disjoint (v.clusterSectors c) v.fatSectors := by
  have behind : Disjoint v.fatSectors v.dataSectors := by
    rw [dataSectors, unwrapped.dataLba_eq]
    exact Finset.Ico_disjoint_Ico_consecutive _ _ _
  exact (behind.mono_right (unwrapped.clusterSectors_subset usable)).symm

end Unwrapped

/-- **`AllocCluster` returns the least free cluster**, or 0 if there is none. Its sectors are sectors of
the volume, and no other cluster and no copy of the FAT has one of them. -/
theorem allocCluster_least (v : Volume) (d : Disk) (unwrapped : v.Unwrapped) :
    ((v.freeClusters d).Nonempty → IsLeast (v.freeClusters d) (v.allocCluster d)) ∧
    (v.allocCluster d = 0 ↔ v.freeClusters d = ∅) ∧
    (∀ c ∈ v.usableClusters, v.clusterSectors c ⊆ v.dataSectors) ∧
    v.usableClusters.PairwiseDisjoint v.clusterSectors ∧
    ∀ c ∈ v.usableClusters, Disjoint (v.clusterSectors c) v.fatSectors := by
  refine ⟨fun some => ?_, allocCluster_eq_zero_iff unwrapped.entries, ?_, ?_, ?_⟩
  · refine (allocCluster_cases unwrapped.entries).resolve_left fun none => ?_
    exact some.ne_empty none.2
  · exact fun c => unwrapped.clusterSectors_subset
  · exact unwrapped.clusterSectors_disjoint
  · exact fun c => unwrapped.clusterSectors_apart

theorem sample_unwrapped : sample.Unwrapped := by
  constructor <;> decide

/-- Cluster 3 holds the file `A`. -/
theorem allocCluster_least_letter : sample.allocCluster withLetter = 4 ∧
    IsLeast (sample.freeClusters withLetter) (sample.allocCluster withLetter) := by
  have free : sample.allocCluster withLetter = 4 := by decide +kernel
  have spec := allocCluster_least sample withLetter sample_unwrapped
  refine ⟨free, spec.1 (Set.nonempty_iff_ne_empty.mpr fun none => ?_)⟩
  rw [← spec.2.1, free] at none
  cases none

end Volume

end LaylaOS.Fs
