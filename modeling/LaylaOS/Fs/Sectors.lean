/-
**The sectors a call writes.**

Each event stands for the sectors it writes, and no other sector changes during a call: the trace
leaves nothing out.
-/

import LaylaOS.Fs.Trace
import LaylaOS.Fs.Calls

namespace LaylaOS.Fs

open LaylaOS.Lib Traced

/-- The sectors of the drive that the event writes. -/
def Event.sectors (v : Volume) : Event → List Nat
  | .buffer _ => []
  | .division _ => []
  | .setFATEntry cluster _ =>
    let fatSector := cluster * 4 % 2 ^ 32 / 512
    if v.bpb.fatCount > 1 then [v.place fatSector, v.place (v.bpb.fatSize32 + fatSector)]
    else [v.place fatSector]
  | .writeCluster cluster _ =>
    (List.range v.bpb.sectorsPerCluster).map fun i => (v.clusterToLBA cluster + i) % 2 ^ 32 % 2 ^ 28

/-- The event does not write the sector. -/
def Event.Spares (v : Volume) (s : Nat) (event : Event) : Prop := s ∉ event.sectors v

namespace Run

variable {v : Volume} {s : Nat} {x : Storage} {d : Disk} (kept : d s = x)

/-- Unless an event writes sector `s`, that sector still holds `x` when the action ends. -/
def Keeps (v : Volume) (s : Nat) (x : Storage) : Traced Event (Disk × Bool) → Prop :=
  Ensures (Event.Spares v s) fun r => r.1 s = x

include kept

theorem setFATEntry_keeps (c : Nat) (origin : Origin) (value : Nat) :
    Ensures (Event.Spares v s) (fun d => d s = x) (setFATEntry v d c origin value) := by
  intro spared d' result
  cases result
  have other : s ∉ (Event.setFATEntry c origin).sectors v :=
    spared _ (mem_trace_bind.mpr (.inl (List.mem_singleton_self _)))
  unfold Event.sectors at other
  unfold Volume.setFATEntry
  dsimp only at other ⊢
  split at other
  · next two =>
      rw [List.mem_cons, List.mem_singleton, not_or] at other
      rw [if_pos two, Nat.add_assoc, Volume.writeSector_place, Volume.writeSector_place]
      exact (if_neg other.2).trans ((if_neg other.1).trans kept)
  · next one =>
      rw [List.mem_singleton] at other
      rw [if_neg one, Volume.writeSector_place]
      exact (if_neg other).trans kept

theorem foldl_writeSector (lba : Nat → Nat) (part : Nat → Storage) {sectors : List Nat}
    (other : s ∉ sectors.map fun i => lba i % 2 ^ 28) :
    sectors.foldl (fun d i => writeSector d (lba i) (part i)) d s = x := by
  induction sectors generalizing d with
  | nil => exact kept
  | cons i sectors ih =>
    rw [List.map_cons, List.mem_cons, not_or] at other
    exact ih ((if_neg other.1).trans kept) other.2

theorem writeCluster_keeps (c : Nat) (origin : Origin) (buffer : Storage) :
    Ensures (Event.Spares v s) (fun d => d s = x) (writeCluster v d c origin buffer) := by
  intro spared d' result
  cases result
  have other : s ∉ (Event.writeCluster c origin).sectors v :=
    spared _ (mem_trace_bind.mpr (.inr ⟨_, rfl, mem_trace_bind.mpr (.inl (List.mem_singleton_self _))⟩))
  exact foldl_writeSector kept (fun i => (v.clusterToLBA c + i) % 2 ^ 32) _ other

variable (fuel : Nat)

theorem writeChainLoop_keeps (cluster : Nat) (rest : List UInt8) :
    Keeps v s x (writeChainLoop v fuel d cluster rest) := by
  induction fuel generalizing d cluster rest with
  | zero => exact Ensures.cut
  | succ fuel ih =>
    unfold writeChainLoop
    split
    · exact Ensures.pure kept
    · refine (Ensures.any _).bind fun _ _ => (writeCluster_keeps kept _ _ _).bind fun d kept => ?_
      dsimp only
      split
      · refine (Ensures.any _).bind fun next _ => ?_
        split
        · exact Ensures.pure kept
        · exact (setFATEntry_keeps kept _ _ _).bind fun d kept =>
            (setFATEntry_keeps kept _ _ _).bind fun d kept => ih kept _ _
      · exact (setFATEntry_keeps kept _ _ _).bind fun d kept => ih kept _ _

theorem writeClusterChain_keeps (cluster : Nat) (data : List UInt8) :
    Keeps v s x (writeClusterChain v fuel d cluster data) := by
  unfold writeClusterChain
  split
  · exact (Ensures.any _).bind fun _ _ => (writeCluster_keeps kept _ _ _).bind fun d kept =>
      (setFATEntry_keeps kept _ _ _).bind fun d kept => Ensures.pure kept
  · exact writeChainLoop_keeps kept fuel cluster data

theorem freeChainLoop_keeps (c : Nat) :
    Ensures (Event.Spares v s) (fun d => d s = x) (freeChainLoop v fuel d c) := by
  induction fuel generalizing d c with
  | zero => exact Ensures.cut
  | succ fuel ih =>
    unfold freeChainLoop
    split
    · exact (setFATEntry_keeps kept _ _ _).bind fun d kept => ih kept _
    · exact Ensures.pure kept

theorem addDirEntryLoop_keeps (entry : DirEntry) (prevCluster cluster : Nat) :
    Keeps v s x (addDirEntryLoop v d entry fuel prevCluster cluster) := by
  induction fuel generalizing prevCluster cluster with
  | zero => exact Ensures.cut
  | succ fuel ih =>
    unfold addDirEntryLoop
    split
    · refine (Ensures.any _).bind fun buffer _ => (Ensures.any _).bind fun found _ => ?_
      split
      · exact (writeCluster_keeps kept _ _ _).bind fun d kept => Ensures.pure kept
      · exact ih _ _
    · refine (Ensures.any _).bind fun newCluster _ => ?_
      split
      · exact Ensures.pure kept
      · exact (Ensures.any _).bind fun _ _ => (Ensures.any _).bind fun _ _ =>
          (setFATEntry_keeps kept _ _ _).bind fun d kept =>
          (setFATEntry_keeps kept _ _ _).bind fun d kept =>
          (writeCluster_keeps kept _ _ _).bind fun d kept => Ensures.pure kept

theorem markEntryDeletedLoop_keeps (name83 : Name) (cluster : Nat) :
    Keeps v s x (markEntryDeletedLoop v d name83 fuel cluster) := by
  induction fuel generalizing cluster with
  | zero => exact Ensures.cut
  | succ fuel ih =>
    unfold markEntryDeletedLoop
    split
    · refine (Ensures.any _).bind fun buffer _ => (Ensures.any _).bind fun found _ => ?_
      split
      · exact Ensures.pure kept
      · exact (writeCluster_keeps kept _ _ _).bind fun d kept => Ensures.pure kept
      · exact ih _
    · exact Ensures.pure kept

theorem storeFile_keeps (dirCluster : Nat) (name83 : Name) (existed : Bool) (data : List UInt8) :
    Keeps v s x (storeFile v fuel d dirCluster name83 existed data) := by
  refine (Ensures.any _).bind fun first _ => ?_
  split
  · exact Ensures.pure kept
  · refine (setFATEntry_keeps kept _ _ _).bind fun d kept =>
      (writeClusterChain_keeps kept fuel _ _).bind fun written kept => ?_
    dsimp only
    split
    · exact Ensures.pure kept
    · cases existed with
      | false => exact addDirEntryLoop_keeps kept fuel _ _ _
      | true =>
        have marked : Ensures (Event.Spares v s) (fun d => d s = x)
            ((·.1) <$> markEntryDeleted v fuel written.1 dirCluster name83) :=
          Ensures.map (markEntryDeletedLoop_keeps kept fuel _ _)
        exact marked.bind fun d kept => addDirEntryLoop_keeps kept fuel _ _ _

theorem writeFile_keeps (path : CString) (data : List UInt8) : Keeps v s x (writeFile v fuel d path data) := by
  refine (Ensures.any _).bind fun parent _ => ?_
  cases parent with
  | none => exact Ensures.pure kept
  | some place =>
    refine (Ensures.any _).bind fun found _ => ?_
    cases found with
    | none => exact storeFile_keeps kept fuel _ _ _ _
    | some existing =>
      dsimp only
      split
      · exact Ensures.pure kept
      · exact (freeChainLoop_keeps kept fuel _).bind fun d kept =>
          storeFile_keeps kept fuel _ _ _ _

theorem deleteFile_keeps (path : CString) : Keeps v s x (deleteFile v fuel d path) := by
  refine (Ensures.any _).bind fun parent _ => ?_
  cases parent with
  | none => exact Ensures.pure kept
  | some place =>
    refine (Ensures.any _).bind fun found _ => ?_
    cases found with
    | none => exact Ensures.pure kept
    | some entry =>
      dsimp only
      split
      · exact Ensures.pure kept
      · exact (freeChainLoop_keeps kept fuel _).bind fun d kept =>
          markEntryDeletedLoop_keeps kept fuel _ _

theorem makeDir_keeps (path : CString) : Keeps v s x (makeDir v fuel d path) := by
  refine (Ensures.any _).bind fun parent _ => ?_
  cases parent with
  | none => exact Ensures.pure kept
  | some place =>
    refine (Ensures.any _).bind fun newCluster _ => ?_
    split
    · exact Ensures.pure kept
    · exact (setFATEntry_keeps kept _ _ _).bind fun d kept =>
        (Ensures.any _).bind fun _ _ => (Ensures.any _).bind fun _ _ =>
        (writeCluster_keeps kept _ _ _).bind fun d kept => addDirEntryLoop_keeps kept fuel _ _ _

omit kept

/-! ### The calls that write -/

/-- A call that changes the volume, with its effects. -/
def call (v : Volume) (fuel : Nat) (d : Disk) : Call → Traced Event (Disk × Bool)
  | .writeFile path data _ => writeFile v fuel d path data
  | .createFile path => createFile v fuel d path
  | .deleteFile path => deleteFile v fuel d path
  | .makeDir path => makeDir v fuel d path

theorem call_result (v : Volume) (d : Disk) (c : Call) : (call v loopFuel d c).result = v.call d c := by
  cases c with
  | writeFile path data word => exact writeFile_result v d path data
  | createFile path => exact writeFile_result v d path []
  | deleteFile path => exact deleteFile_result v d path
  | makeDir path => exact makeDir_result v d path

theorem call_keeps (kept : d s = x) (c : Call) : Keeps v s x (call v fuel d c) := by
  cases c with
  | writeFile path data word => exact writeFile_keeps kept fuel path data
  | createFile path => exact writeFile_keeps kept fuel path []
  | deleteFile path => exact deleteFile_keeps kept fuel path
  | makeDir path => exact makeDir_keeps kept fuel path

end Run

end LaylaOS.Fs
