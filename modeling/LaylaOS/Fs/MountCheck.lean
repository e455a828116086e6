/-
**What `Mount` would have to check.**

`Mount` looks at `bytes_per_sector` only. What the later calls rely on is `sectors_per_cluster`: a
cluster has to fit the 4096-byte `cluster_buf`, of which `ReadCluster` and `WriteCluster` always use
`cluster_size` bytes, and `AllocCluster` divides by it.

* `mount_sufficient_iff` — the boot sectors after which no call leaves the buffer or divides by zero.
-/

import LaylaOS.Fs.Permits

namespace LaylaOS.Fs

open LaylaOS.Lib Traced

/-- The size of `cluster_buf`. -/
def clusterBufSize : Nat := 4096

/-- The event stays inside `cluster_buf` and divides by zero nowhere. -/
def Event.Safe : Event → Prop
  | .buffer extent => extent ≤ clusterBufSize
  | .division divisor => divisor ≠ 0
  | .setFATEntry _ _ => True
  | .writeCluster _ _ => True

instance : DecidablePred Event.Safe
  | .buffer extent => inferInstanceAs (Decidable (extent ≤ clusterBufSize))
  | .division divisor => inferInstanceAs (Decidable (divisor ≠ 0))
  | .setFATEntry _ _ => .isTrue trivial
  | .writeCluster _ _ => .isTrue trivial

namespace Volume

variable {v : Volume}

/-- A disk of zeros: every FAT entry is free. -/
def zeroDisk : Disk := fun _ _ => 0

theorem allocCluster_zeroDisk (table : 0 < v.bpb.fatSize32) (room : 3 < v.maxCluster) :
    v.allocCluster zeroDisk = 3 := by
  obtain ⟨n, size⟩ := Nat.exists_eq_succ_of_ne_zero table.ne'
  have first : List.range 128 = [0, 1, 2] ++ 3 :: List.range' 4 124 := by decide
  have skipped : ¬ v.maxCluster ≤ 3 := by omega
  have free : ∀ lba, readLE (readSector zeroDisk lba) 12 4 = 0 := fun lba => rfl
  unfold allocCluster
  rw [size, first, Nat.succ_eq_add_one, List.range_succ_eq_map]
  simp [skipped, free]

/-! ### The calls that need the check -/

section Unsafe

variable (v)

theorem list_touches (inside : v.bpb.rootCluster < endOfChain) (path : CString)
    (root : pathComponents path = []) (d : Disk) :
    .buffer v.clusterSize ∈ (Request.listDirectory path).trace v 1 d := by
  show _ ∈ (Run.list v 1 d (v.clusterSize / 32) path).trace
  have resolved : Run.resolvePath v 1 d path = pure (some .root) := if_pos root
  have read : .buffer v.clusterSize ∈ (Run.listLoop v d (v.clusterSize / 32) 1 v.bpb.rootCluster).trace := by
    rw [Run.listLoop, if_pos inside]
    exact mem_trace_bind.mpr (.inl (mem_trace_bind.mpr (.inl (List.mem_singleton_self _))))
  rw [Run.list, resolved]
  exact mem_trace_bind.mpr (.inr ⟨_, rfl, mem_trace_bind.mpr (.inl read)⟩)

theorem createFile_touches (outside : ¬ v.bpb.rootCluster < endOfChain)
    (table : 0 < v.bpb.fatSize32) (room : 3 < v.maxCluster) (path : CString) {name : List UInt8}
    (single : parentComponents path = [name]) :
    .buffer v.clusterSize ∈ (Request.createFile path).trace v 1 zeroDisk := by
  have resolved : Run.resolveParentDir v 1 zeroDisk path = pure (some (v.bpb.rootCluster, name)) := by
    rw [Run.resolveParentDir, single, Run.resolveParentLoop]
  have absent : Run.findEntry v 1 zeroDisk v.bpb.rootCluster name = pure none := by
    rw [Run.findEntry, Run.findEntryLoop, if_neg outside]
  have given : v.allocCluster zeroDisk = 3 := allocCluster_zeroDisk table room
  have written : ∀ d c, .buffer v.clusterSize ∈ (Run.writeClusterChain v 1 d c []).trace := by
    intro d c
    rw [Run.writeClusterChain, if_pos rfl]
    exact mem_trace_bind.mpr (.inr ⟨_, rfl,
      mem_trace_bind.mpr (.inl (mem_trace_bind.mpr (.inl (List.mem_singleton_self _))))⟩)
  show _ ∈ (Run.writeFile v 1 zeroDisk path []).trace
  rw [Run.writeFile, resolved]
  refine mem_trace_bind.mpr (.inr ⟨_, rfl, ?_⟩)
  dsimp only
  rw [Run.writeFileIn, absent]
  refine mem_trace_bind.mpr (.inr ⟨_, rfl, ?_⟩)
  refine mem_trace_bind.mpr (.inr ⟨3, given ▸ Run.allocCluster_result v zeroDisk, ?_⟩)
  rw [if_neg (by decide)]
  exact mem_trace_bind.mpr (.inr ⟨_, rfl, mem_trace_bind.mpr (.inl (written _ _))⟩)

theorem makeDir_divides (data : v.totalSectors > v.dataOffset) (path : CString) {name : List UInt8}
    (single : parentComponents path = [name]) (d : Disk) :
    .division v.bpb.sectorsPerCluster ∈ (Request.makeDir path).trace v 1 d := by
  have resolved : Run.resolveParentDir v 1 d path = pure (some (v.bpb.rootCluster, name)) := by
    rw [Run.resolveParentDir, single, Run.resolveParentLoop]
  have divided : .division v.bpb.sectorsPerCluster ∈ (Run.allocCluster v d).trace := by
    rw [Run.allocCluster, if_pos data]
    exact mem_trace_bind.mpr (.inl (List.mem_singleton_self _))
  show _ ∈ (Run.makeDir v 1 d path).trace
  rw [Run.makeDir, resolved]
  exact mem_trace_bind.mpr (.inr ⟨_, rfl, mem_trace_bind.mpr (.inl divided)⟩)

end Unsafe

/-- **The check `Mount` lacks.** On a mounted volume no call, on any disk, leaves `cluster_buf` or
divides by zero, exactly if a cluster has at most eight sectors (or there is no cluster to visit) and
at least one (or there is no data area). That `Mount` returned true says nothing about either. -/
theorem mount_sufficient_iff {boot : Disk} {partitionLba : Nat}
    (_mounted : mount boot partitionLba = (v, true)) :
    (∀ (d : Disk) (request : Request) (fuel : Nat), ∀ event ∈ request.trace v fuel d, event.Safe) ↔
      (v.bpb.sectorsPerCluster ≤ 8 ∨ ¬ v.Usable) ∧
        (v.bpb.sectorsPerCluster ≠ 0 ∨ v.totalSectors ≤ v.dataOffset) := by
  constructor
  · intro safe
    constructor
    · by_contra wide
      obtain ⟨wide, usable⟩ := not_or.mp wide
      have large : ¬ (Event.buffer v.clusterSize).Safe := by
        show ¬ v.bpb.sectorsPerCluster * 512 ≤ 4096
        omega
      by_cases inside : v.bpb.rootCluster < endOfChain
      · exact large (safe _ _ _ _ (list_touches v inside ⟨[], List.not_mem_nil⟩ rfl zeroDisk))
      · obtain ⟨table, room⟩ := (not_not.mp usable).resolve_left inside
        exact large (safe _ _ _ _ (createFile_touches v inside table room ⟨[65], by decide⟩ rfl))
    · by_contra empty
      obtain ⟨zero, data⟩ := not_or.mp empty
      exact safe _ _ _ _ (makeDir_divides v (not_le.mp data) ⟨[65], by decide⟩ rfl zeroDisk) (not_not.mp zero)
  · rintro ⟨narrow, divisible⟩ d request fuel
    refine Request.permitted ⟨⟨?_, ?_, ?_⟩, ?_⟩ fuel d request
    · intro usable extent fits
      have eight := narrow.resolve_right (not_not.mpr usable)
      have size : v.clusterSize = v.bpb.sectorsPerCluster * 512 := rfl
      show extent ≤ 4096
      omega
    · intro data
      exact divisible.resolve_right (not_le.mpr data)
    · exact fun _ _ _ => ⟨trivial, trivial⟩
    · exact fun _ => ⟨trivial, trivial⟩

/-- A boot sector with one reserved sector, one FAT of one sector, 100 sectors and root cluster 2. -/
def bootSector (sectorsPerCluster : UInt8) : Storage := fun k =>
  if k = 12 then 2
  else if k = 13 then sectorsPerCluster
  else if k = 14 ∨ k = 16 ∨ k = 36 then 1
  else if k = 19 then 100
  else if k = 44 then 2
  else 0

/-- The drive that starts with it. -/
def bootDisk (sectorsPerCluster : UInt8) : Disk := fun lba =>
  if lba = 0 then bootSector sectorsPerCluster else fun _ => 0

theorem mount_bootDisk (n : UInt8) :
    mount (bootDisk n) 0 = (⟨0, ⟨512, n.toNat, 1, 1, 100, 0, 1, 2⟩⟩, true) := by
  simp [mount, Bpb.ofSector, readSector, readLE, bootDisk, bootSector]

theorem eight_sectors_safe : (mount (bootDisk 8) 0).2 = true ∧ ∀ (d : Disk) (request : Request) (fuel : Nat),
      ∀ event ∈ request.trace (mount (bootDisk 8) 0).1 fuel d, event.Safe := by
  rw [mount_bootDisk]
  exact ⟨rfl, (mount_sufficient_iff (mount_bootDisk 8)).mpr ⟨.inl (by decide), .inl (by decide)⟩⟩

/-- `Mount` accepts 16 sectors per cluster, after which listing the root directory reads 8192 bytes
into `cluster_buf`, and it accepts none, after which `MakeDir` divides by zero. -/
theorem mount_insufficient : ((mount (bootDisk 16) 0).2 = true ∧
      ∃ event ∈ (Request.listDirectory ⟨[47], by decide⟩).trace (mount (bootDisk 16) 0).1 1
        (bootDisk 16), ¬ event.Safe) ∧
    ((mount (bootDisk 0) 0).2 = true ∧
      ∃ event ∈ (Request.makeDir ⟨[65], by decide⟩).trace (mount (bootDisk 0) 0).1 1
        (bootDisk 0), ¬ event.Safe) := by
  rw [mount_bootDisk, mount_bootDisk]
  constructor
  · exact ⟨rfl, _, list_touches _ (by decide) _ rfl _, by decide⟩
  · exact ⟨rfl, _, makeDir_divides _ (by decide) _ rfl _, by decide⟩

end Volume

end LaylaOS.Fs
