/-
**Where the driver writes.**

On a volume with a consistent boot sector, whatever its FAT and its directories hold. The clusters that
`AllocCluster` gives out are clusters of the volume, so what is written to them, and to their FAT
entries, stays inside. The free loops, `MarkEntryDeleted` and `AddDirEntry` write to clusters whose
numbers they have read from the disk, and compare them with the end mark only.

* `writes_contained` — a call stays inside if the numbers it takes from the disk are of this volume.
-/

import LaylaOS.Fs.Sectors
import LaylaOS.Fs.MountCheck
import LaylaOS.Fs.Termination

namespace LaylaOS.Fs

open LaylaOS.Lib Traced

namespace Volume

variable {v : Volume}

/-- A sector of one of the FAT copies, or of the data area. -/
def Inside (v : Volume) (s : Nat) : Prop :=
  (∃ copy < v.bpb.fatCount, ∃ k < v.bpb.fatSize32, s = v.fatLba + copy * v.bpb.fatSize32 + k) ∨
    (v.dataLba ≤ s ∧ s < v.partitionLba + v.totalSectors)

instance (v : Volume) : DecidablePred v.Inside := fun s => by
  unfold Inside
  infer_instance

/-- A consistent boot sector: 512-byte sectors, one to eight of them a cluster, one or two FATs, with
an entry for every cluster, and a volume that holds the FATs and lies inside `2 ^ 28` sectors. -/
structure Consistent (v : Volume) : Prop where
  sectorSize : v.bpb.bytesPerSector = 512
  perCluster : 1 ≤ v.bpb.sectorsPerCluster ∧ v.bpb.sectorsPerCluster ≤ 8
  copies : v.bpb.fatCount = 1 ∨ v.bpb.fatCount = 2
  covered : v.maxCluster ≤ 128 * v.bpb.fatSize32
  holdsFats : v.bpb.reservedSectors + v.bpb.fatCount * v.bpb.fatSize32 ≤ v.totalSectors
  addressed : v.partitionLba + v.totalSectors ≤ 2 ^ 28

namespace Consistent

variable (consistent : v.Consistent)

include consistent

theorem fatLba_eq : v.fatLba = v.partitionLba + v.bpb.reservedSectors := by
  have holds := consistent.holdsFats
  have addressed := consistent.addressed
  exact Nat.mod_eq_of_lt (by omega)

theorem dataLba_eq : v.dataLba = v.fatLba + v.bpb.fatCount * v.bpb.fatSize32 := by
  have holds := consistent.holdsFats
  have addressed := consistent.addressed
  have start := consistent.fatLba_eq
  exact Nat.mod_eq_of_lt (by omega)

theorem dataOffset_eq : v.dataOffset = v.bpb.reservedSectors + v.bpb.fatCount * v.bpb.fatSize32 := by
  have holds := consistent.holdsFats
  have addressed := consistent.addressed
  have start := consistent.fatLba_eq
  have data := consistent.dataLba_eq
  unfold dataOffset
  omega

theorem clusters_end : v.dataOffset + (v.maxCluster - 2) * v.bpb.sectorsPerCluster ≤ v.totalSectors := by
  have holds := consistent.holdsFats
  have addressed := consistent.addressed
  have offset := consistent.dataOffset_eq
  have whole : (v.totalSectors - v.dataOffset) / v.bpb.sectorsPerCluster * v.bpb.sectorsPerCluster ≤
      v.totalSectors - v.dataOffset := Nat.div_mul_le_self _ _
  have few : (v.totalSectors - v.dataOffset) / v.bpb.sectorsPerCluster ≤ v.totalSectors :=
    (Nat.div_le_self _ _).trans (Nat.sub_le _ _)
  have limit : v.maxCluster = (2 + if v.totalSectors > v.dataOffset then
      (v.totalSectors - v.dataOffset) / v.bpb.sectorsPerCluster else 0) % 2 ^ 32 := rfl
  have count : v.maxCluster - 2 = (v.totalSectors - v.dataOffset) / v.bpb.sectorsPerCluster := by
    rw [limit]
    split
    · rw [Nat.mod_eq_of_lt (by omega), Nat.add_sub_cancel_left]
    · next empty =>
        rw [Nat.sub_eq_zero_of_le (not_lt.mp empty), Nat.zero_div]
        rfl
  rw [count]
  omega

theorem place_eq {k : Nat} (high : v.bpb.reservedSectors + k < v.totalSectors) : v.place k = v.fatLba + k := by
  have addressed := consistent.addressed
  have start := consistent.fatLba_eq
  exact Nat.mod_eq_of_lt (by omega)

theorem inside_fat {copy k : Nat} (number : copy < v.bpb.fatCount) (inTable : k < v.bpb.fatSize32) :
    v.Inside (v.place (copy * v.bpb.fatSize32 + k)) := by
  have holds := consistent.holdsFats
  have table : (copy + 1) * v.bpb.fatSize32 ≤ v.bpb.fatCount * v.bpb.fatSize32 := Nat.mul_le_mul_right _ number
  rw [Nat.succ_mul] at table
  rw [consistent.place_eq (by omega), ← Nat.add_assoc]
  exact .inl ⟨copy, number, k, inTable, rfl⟩

end Consistent

end Volume

/-- Every sector the event writes is a FAT sector or lies in the data area. -/
def Event.Contained (v : Volume) (event : Event) : Prop := ∀ s ∈ event.sectors v, v.Inside s

/-- The cluster numbers from the disk are of this volume: those of FAT entries have one, and those of
directory clusters are between 2 and `max_cluster`. -/
def Event.Valid (v : Volume) : Event → Prop
  | .setFATEntry cluster .disk => cluster < 128 * v.bpb.fatSize32
  | .writeCluster cluster .disk => 2 ≤ cluster ∧ cluster < v.maxCluster
  | _ => True

instance (v : Volume) : DecidablePred (Event.Valid v) := fun event => by
  unfold Event.Valid
  split <;> infer_instance

namespace Volume.Consistent

variable {v : Volume} (consistent : v.Consistent)

include consistent

theorem setFATEntry_contained {c : Nat} (inTable : c < 128 * v.bpb.fatSize32) (origin : Origin) :
    (Event.setFATEntry c origin).Contained v := by
  have low : c * 4 % 2 ^ 32 / 512 < v.bpb.fatSize32 := by omega
  have copies : 0 < v.bpb.fatCount := by rcases consistent.copies with one | two <;> omega
  have first := consistent.inside_fat copies low
  rw [Nat.zero_mul, Nat.zero_add] at first
  intro s mem
  unfold Event.sectors at mem
  dsimp only at mem
  split at mem
  · next two =>
      have second := consistent.inside_fat two low
      rw [Nat.one_mul] at second
      rcases List.mem_pair.mp mem with rfl | rfl
      · exact first
      · exact second
  · rw [List.mem_singleton.mp mem]
    exact first

theorem writeCluster_contained {c : Nat} (low : 2 ≤ c) (high : c < v.maxCluster) (origin : Origin) :
    (Event.writeCluster c origin).Contained v := by
  have fits := consistent.clusters_end
  have offset := consistent.dataOffset_eq
  have start := consistent.fatLba_eq
  have data := consistent.dataLba_eq
  have addressed := consistent.addressed
  have covered := consistent.covered
  have room : (c - 2 + 1) * v.bpb.sectorsPerCluster ≤
      (v.maxCluster - 2) * v.bpb.sectorsPerCluster := Nat.mul_le_mul_right _ (by omega)
  rw [Nat.succ_mul] at room
  have numbered : c < 2 ^ 32 := high.trans (Nat.mod_lt _ (by decide))
  intro s mem
  obtain ⟨i, inCluster, rfl⟩ := List.mem_map.mp mem
  have few := List.mem_range.mp inCluster
  rw [lba_eq low numbered]
  unfold clusterPlace
  rw [Nat.mod_eq_of_lt (by omega), Nat.mod_eq_of_lt (by omega)]
  exact .inr ⟨by omega, by omega⟩

end Volume.Consistent

theorem Volume.Consistent.permits {v : Volume} (consistent : v.Consistent) :
    Run.Permits v fun event => event.Valid v → event.Contained v where
  buffer _ _ _ _ := List.forall_mem_nil _
  division _ _ := List.forall_mem_nil _
  allocated c low high :=
    ⟨fun _ => consistent.setFATEntry_contained (high.trans_le consistent.covered) _,
      fun _ => consistent.writeCluster_contained (by omega) high _⟩
  disk c :=
    ⟨fun inTable => consistent.setFATEntry_contained inTable _,
      fun valid => consistent.writeCluster_contained valid.1 valid.2 _⟩

theorem Run.Permits.call {v : Volume} {P : Event → Prop} (permits : Run.Permits v P) (fuel : Nat)
    (d : Disk) (c : Call) : All P (Run.call v fuel d c) := by
  cases c with
  | writeFile path data word => exact Request.permitted permits fuel d (.writeFile path data)
  | createFile path => exact Request.permitted permits fuel d (.createFile path)
  | deleteFile path => exact Request.permitted permits fuel d (.deleteFile path)
  | makeDir path => exact Request.permitted permits fuel d (.makeDir path)

/-! ### Valid numbers, from the disk before the call -/

namespace Volume

variable {v : Volume} {d : Disk} {fuel D : Nat} {name83 : Name}

theorem DeletesInOrder.frees (g : v.Placement) {path : CString} (order : v.DeletesInOrder d path) :
    Run.Discipline.Frees v v.StaysInTable v.InOrder d path := by
  intro D name resolved e found file
  obtain ⟨inOrder, spares⟩ := order D name resolved e found file
  exact ⟨spares.inTable, fun _ _ ran => (Orderly.freed g ⟨inOrder, False.elim⟩ spares ran).inOrder⟩

/-- Sectors outside the volume are as before when such a call returns. -/
theorem outside_unchanged (consistent : v.Consistent) {d d' : Disk} {call : Call} {done : Bool}
    (valid : ∀ event ∈ (Run.call v loopFuel d call).trace, event.Valid v)
    (returns : v.call d call = some (d', done)) {s : Nat} (outside : ¬ v.Inside s) : d' s = d s := by
  rw [← Run.call_result] at returns
  refine Run.call_keeps loopFuel rfl call (fun event mem inSectors => outside ?_) _ returns
  exact consistent.permits.call loopFuel d call event mem (valid event mem) s inSectors

/-! ### A volume of 100 sectors -/

/-- What `Mount` makes of `bootDisk 1`: clusters 2 to 99, FAT sector 1. -/
def hundred : Volume := ⟨0, ⟨512, 1, 1, 1, 100, 0, 1, 2⟩⟩

theorem hundred_consistent : hundred.Consistent := ⟨rfl, by decide, .inl rfl, by decide, by decide, by decide⟩

theorem outside_unchanged_hundred :
    (hundred.call (bootDisk 1) (.makeDir ⟨[65], letter_terminated⟩)).map (fun result => result.1 100) =
      some (bootDisk 1 100) := by
  obtain ⟨⟨d', done⟩, returns⟩ := Option.isSome_iff_exists.mp (show
    (hundred.call (bootDisk 1) (.makeDir ⟨[65], letter_terminated⟩)).isSome = true by decide +kernel)
  rw [returns]
  exact congrArg some (outside_unchanged hundred_consistent (by decide +kernel) returns (by decide))

end Volume

end LaylaOS.Fs
