/-
**What may happen during a call.**

Whatever the disk holds, the effects of a call are of four kinds: buffer accesses, if the volume has a
cluster to visit at all; a division, if it has a data area; writes to a cluster that `AllocCluster` has
checked; and writes to a cluster whose number comes from the disk.
-/

import LaylaOS.Fs.ClusterLoops

namespace LaylaOS.Fs

open LaylaOS.Lib Traced

namespace Volume

variable (v : Volume)

theorem bufSize_le : v.bufSize ≤ v.clusterSize := by
  unfold bufSize
  split <;> omega

theorem bufEntries_le : v.bufSize / 32 ≤ v.clusterSize / 32 := Nat.div_le_div_right v.bufSize_le

/-- The volume has a cluster to visit: its root directory is not an end mark, or `AllocCluster` can
give one out. -/
def Usable : Prop :=
  v.bpb.rootCluster < endOfChain ∨ (0 < v.bpb.fatSize32 ∧ 3 < v.maxCluster)

theorem allocCluster_spec {v : Volume} {d : Disk} (given : v.allocCluster d ≠ 0) :
    0 < v.bpb.fatSize32 ∧ 3 ≤ v.allocCluster d ∧ v.allocCluster d < v.maxCluster := by
  unfold allocCluster at given ⊢
  cases found : (List.range v.bpb.fatSize32).findSome? _ with
  | none =>
    rw [found] at given
    exact absurd rfl given
  | some c =>
    obtain ⟨s, inTable, entry⟩ := List.exists_of_findSome?_eq_some found
    obtain ⟨i, -, free⟩ := List.exists_of_findSome?_eq_some entry
    have some_lt : s < v.bpb.fatSize32 := List.mem_range.mp inTable
    refine ⟨by omega, ?_⟩
    dsimp only at free
    split at free
    · cases free
    · next inside =>
        split at free
        · cases free
          exact ⟨by simp only [Option.getD_some]; omega, by simp only [Option.getD_some]; omega⟩
        · cases free

end Volume

namespace Run

variable (v : Volume)

/-- The events of the lookups and of `AllocCluster`, whatever is on the disk. -/
structure Observes (P : Event → Prop) : Prop where
  buffer : v.Usable → ∀ extent ≤ max v.clusterSize 64, P (.buffer extent)
  division : v.totalSectors > v.dataOffset → P (.division v.bpb.sectorsPerCluster)
  allocated : ∀ c, 3 ≤ c → c < v.maxCluster →
    P (.setFATEntry c .allocated) ∧ P (.writeCluster c .allocated)

/-- The events a call may cause, whatever is on the disk. -/
structure Permits (P : Event → Prop) : Prop extends Observes v P where
  disk : ∀ c, P (.setFATEntry c .disk) ∧ P (.writeCluster c .disk)

namespace Observes

variable {v : Volume} {P : Event → Prop} (observes : Observes v P) (d : Disk)

include observes

theorem given {c : Nat} (alloc : (Run.allocCluster v d).result = some c) (nonzero : c ≠ 0) :
    v.Usable ∧ P (.setFATEntry c .allocated) ∧ P (.writeCluster c .allocated) := by
  rw [allocCluster_result] at alloc
  cases alloc
  obtain ⟨table, low, high⟩ := Volume.allocCluster_spec nonzero
  exact ⟨.inr ⟨table, by omega⟩, observes.allocated _ low high⟩

theorem allocCluster : All P (Run.allocCluster v d) := by
  unfold Run.allocCluster
  split
  · next some_data => exact (All.emit (observes.division some_data)).bind fun _ _ => All.pure _
  · exact All.pure _

omit observes in
theorem setFATEntry {c : Nat} {origin : Origin} (set : P (.setFATEntry c origin)) (value : Nat) :
    All P (Run.setFATEntry v d c origin value) :=
  (All.emit set).bind fun _ _ => All.pure _

section Usable

variable (usable : v.Usable)

include usable

theorem emitBuffer {extent : Nat} (fits : extent ≤ max v.clusterSize 64) : All P (emit (Event.buffer extent)) :=
  All.emit (observes.buffer usable extent fits)

theorem emitBufSize : All P (emit (Event.buffer v.bufSize)) :=
  observes.emitBuffer usable (v.bufSize_le.trans (le_max_left _ _))

theorem readCluster (c : Nat) : All P (Run.readCluster v d c) :=
  (observes.emitBuffer usable (le_max_left _ _)).bind fun _ _ => All.pure _

theorem writeCluster {c : Nat} {origin : Origin} (write : P (.writeCluster c origin))
    (buffer : Storage) : All P (Run.writeCluster v d c origin buffer) :=
  (observes.emitBuffer usable (le_max_left _ _)).bind fun _ _ =>
    (All.emit write).bind fun _ _ => All.pure _

theorem entries {count : Nat} (fits : count ≤ v.clusterSize / 32) (buffer : Storage) :
    All P (Run.entries count buffer) :=
  (observes.emitBuffer usable (by omega)).bind fun _ _ => All.pure _

end Usable

/-! The loops over a cluster chain: the first cluster they visit shows that the volume is usable. -/

variable (fuel : Nat)

theorem findEntry {dirCluster : Nat} (visits : dirCluster < endOfChain → v.Usable)
    (name : List UInt8) : All P (Run.findEntry v fuel d dirCluster name) := by
  unfold Run.findEntry
  induction fuel generalizing dirCluster with
  | zero => exact All.cut
  | succ fuel ih =>
    unfold findEntryLoop
    split
    · next inside =>
        refine (observes.readCluster d (visits inside) _).bind fun buffer _ =>
          (observes.entries (visits inside) le_rfl buffer).bind fun found _ => ?_
        split
        · exact All.pure _
        · exact All.pure _
        · exact ih fun _ => visits inside
    · exact All.pure _

omit observes in
theorem findEntry_usable {dirCluster : Nat} (visits : dirCluster < endOfChain → v.Usable)
    {name : List UInt8} {entry : DirEntry}
    (found : (Run.findEntry v fuel d dirCluster name).result = some (some entry)) : v.Usable := by
  by_cases inside : dirCluster < endOfChain
  · exact visits inside
  · cases fuel with
    | zero => cases found
    | succ fuel =>
      rw [Run.findEntry, findEntryLoop, if_neg inside] at found
      cases found

theorem resolveParentLoop {dirCluster : Nat} (visits : dirCluster < endOfChain → v.Usable)
    (names : List (List UInt8)) :
    All P (Run.resolveParentLoop v fuel d dirCluster names) ∧
      ∀ place, (Run.resolveParentLoop v fuel d dirCluster names).result = some (some place) →
        place.1 < endOfChain → v.Usable := by
  fun_induction Run.resolveParentLoop v fuel d dirCluster names with
  | case1 => exact ⟨All.pure _, nofun⟩
  | case2 dirCluster last =>
    refine ⟨All.pure _, fun place result => ?_⟩
    cases result
    exact visits
  | case3 dirCluster name next rest ih =>
    constructor
    · refine (observes.findEntry d fuel visits name).bind fun found result => ?_
      cases found with
      | none => exact All.pure _
      | some entry =>
        dsimp only
        split
        · exact (ih entry fun _ => findEntry_usable d fuel visits result).1
        · exact All.pure _
    · intro place result
      rw [result_bind, Option.bind_eq_some_iff] at result
      obtain ⟨found, lookup, result⟩ := result
      cases found with
      | none => cases result
      | some entry => exact fun _ => findEntry_usable d fuel visits lookup

theorem resolveParentDir (path : CString) : All P (Run.resolveParentDir v fuel d path) ∧
      ∀ place, (Run.resolveParentDir v fuel d path).result = some (some place) →
        place.1 < endOfChain → v.Usable :=
  observes.resolveParentLoop d fuel .inl _

theorem bindParent (path : CString) {α : Type} {f : Option (Nat × List UInt8) → Traced Event α}
    (unresolved : All P (f none))
    (resolved : ∀ place, (Run.resolveParentDir v fuel d path).result = some (some place) →
      (place.1 < endOfChain → v.Usable) → All P (f (some place))) :
    All P (Run.resolveParentDir v fuel d path >>= f) := by
  obtain ⟨events, usable⟩ := observes.resolveParentDir d fuel path
  refine events.bind fun parent result => ?_
  cases parent with
  | none => exact unresolved
  | some place => exact resolved place result (usable place result)

theorem resolvePathLoop {dirCluster : Nat} (visits : dirCluster < endOfChain → v.Usable)
    (names : List (List UInt8)) :
    All P (Run.resolvePathLoop v fuel d dirCluster names) ∧
      ∀ entry, (Run.resolvePathLoop v fuel d dirCluster names).result = some (some entry) → v.Usable := by
  cases names with
  | nil => exact ⟨All.pure _, nofun⟩
  | cons name rest =>
    constructor
    · induction rest generalizing dirCluster name with
      | nil =>
        refine (observes.findEntry d fuel visits name).bind fun found result => ?_
        cases found <;> exact All.pure _
      | cons next rest ih =>
        refine (observes.findEntry d fuel visits name).bind fun found result => ?_
        cases found with
        | none => exact All.pure _
        | some entry =>
          dsimp only
          rw [if_neg (List.cons_ne_nil _ _)]
          split
          · exact ih (fun _ => findEntry_usable d fuel visits result) next
          · exact All.pure _
    · intro entry result
      rw [Run.resolvePathLoop, result_bind, Option.bind_eq_some_iff] at result
      obtain ⟨found, lookup, result⟩ := result
      cases found with
      | none => cases result
      | some entry => exact findEntry_usable d fuel visits lookup

theorem resolvePath (path : CString) : All P (Run.resolvePath v fuel d path) ∧
      ∀ entry, (Run.resolvePath v fuel d path).result = some (some (.entry entry)) → v.Usable := by
  unfold Run.resolvePath
  split
  · exact ⟨All.pure _, nofun⟩
  · obtain ⟨events, usable⟩ := observes.resolvePathLoop d fuel .inl (pathComponents path)
    refine ⟨events.bind fun _ _ => All.pure _, fun entry result => ?_⟩
    rw [result_bind, Option.bind_eq_some_iff] at result
    obtain ⟨found, lookup, result⟩ := result
    cases found with
    | none => cases result
    | some entry => exact usable entry lookup

omit observes in
theorem readChainLoop (cluster : Nat) : All P (Run.readChainLoop v d fuel cluster) := by
  induction fuel generalizing cluster with
  | zero => exact All.cut
  | succ fuel ih =>
    unfold Run.readChainLoop
    split
    · exact (ih _).bind fun _ _ => All.pure _
    · exact All.pure _

theorem readFile (path : CString) : All P (Run.readFile v fuel d path) := by
  refine (observes.resolvePath d fuel path).1.bind fun target _ => ?_
  rcases target with _ | _ | e
  · exact All.pure _
  · exact All.pure _
  · dsimp only
    split
    · exact All.pure _
    · exact (readChainLoop d fuel _).bind fun _ _ => All.pure _

theorem isDirectory (path : CString) : All P (Run.isDirectory v fuel d path) := by
  refine (observes.resolvePath d fuel path).1.bind fun target _ => ?_
  rcases target with _ | _ | e <;> exact All.pure _

theorem listLoop {count : Nat} (fits : count ≤ v.clusterSize / 32) {cluster : Nat}
    (visits : cluster < endOfChain → v.Usable) : All P (Run.listLoop v d count fuel cluster) := by
  induction fuel generalizing cluster with
  | zero => exact All.cut
  | succ fuel ih =>
    unfold Run.listLoop
    split
    · next inside =>
        refine (observes.readCluster d (visits inside) _).bind fun buffer _ =>
          (observes.entries (visits inside) fits buffer).bind fun found _ => ?_
        split
        · exact All.pure _
        · exact ih fun _ => visits inside
    · exact All.pure _

theorem list {count : Nat} (fits : count ≤ v.clusterSize / 32) (path : CString) :
    All P (Run.list v fuel d count path) := by
  obtain ⟨events, usable⟩ := observes.resolvePath d fuel path
  refine events.bind fun target result => ?_
  rcases target with _ | _ | e
  · exact All.pure _
  · exact (observes.listLoop d fuel fits .inl).bind fun _ _ => All.pure _
  · dsimp only
    split
    · exact (observes.listLoop d fuel fits fun _ => usable e result).bind fun _ _ => All.pure _
    · exact All.pure _

theorem writeChainLoop (usable : v.Usable) {cluster : Nat}
    (mine : P (.setFATEntry cluster .allocated) ∧ P (.writeCluster cluster .allocated))
    (rest : List UInt8) : All P (Run.writeChainLoop v fuel d cluster rest) := by
  induction fuel generalizing d cluster rest with
  | zero => exact All.cut
  | succ fuel ih =>
    unfold Run.writeChainLoop
    split
    · exact All.pure _
    · refine (observes.emitBufSize usable).bind fun _ _ =>
        (observes.writeCluster d usable mine.2 _).bind fun d _ => ?_
      dsimp only
      split
      · refine (observes.allocCluster d).bind fun next alloc => ?_
        split
        · exact All.pure _
        · next nonzero =>
            obtain ⟨-, theirs⟩ := observes.given d alloc nonzero
            exact (setFATEntry d mine.1 _).bind fun d _ =>
              (setFATEntry d theirs.1 _).bind fun d _ => ih d theirs _
      · exact (setFATEntry d mine.1 _).bind fun d _ => ih d mine _

theorem writeClusterChain (usable : v.Usable) {cluster : Nat}
    (mine : P (.setFATEntry cluster .allocated) ∧ P (.writeCluster cluster .allocated))
    (data : List UInt8) : All P (Run.writeClusterChain v fuel d cluster data) := by
  unfold Run.writeClusterChain
  split
  · exact (observes.emitBufSize usable).bind fun _ _ =>
      (observes.writeCluster d usable mine.2 _).bind fun d _ =>
        (setFATEntry d mine.1 _).bind fun _ _ => All.pure _
  · exact observes.writeChainLoop d fuel usable mine data

end Observes

/-! ### The writing side

What is written belongs to a cluster of `AllocCluster`, or to the chain that is freed or searched. -/

/-- **A discipline**: what is known of a number from which a chain is freed, and of a cluster where a loop over a
directory is. `P` holds of the writes there, and the stages of a call keep what is known. -/
structure Discipline (P : Event → Prop) (frees : Disk → Nat → Prop) (scans : Disk → Stops → Nat → Prop) :
    Prop extends Observes v P where
  free : ∀ {d c}, frees d c → 2 ≤ c → c < endOfChain →
    P (.setFATEntry c .disk) ∧ frees (v.setFATEntry d c 0) (v.nextCluster d c)
  scan : ∀ {d stops c}, scans d stops c → c < endOfChain →
    P (.setFATEntry c .disk) ∧ P (.writeCluster c .disk) ∧
      (¬ stops c (v.readCluster d c) → scans d stops (v.nextCluster d c))
  /-- An entry is added to a directory without clusters. -/
  first : 0 < v.bpb.fatSize32 → P (.setFATEntry 0 .disk)
  stored : ∀ {d d' stops D fuel data stored}, scans d stops D → v.allocCluster d ≠ 0 →
    (writeClusterChain v fuel (v.setFATEntry d (v.allocCluster d) 0x0FFFFFFF)
      (v.allocCluster d) data).result = some (d', stored) → scans d' stops D
  marked : ∀ {d d' name83 D fuel found}, scans d (v.markStops name83) D →
    v.markEntryDeletedLoop d name83 fuel D = some (d', found) → scans d' v.addStops D
  made : ∀ {d D} buffer, scans d v.addStops D → v.allocCluster d ≠ 0 →
    scans (v.writeCluster (v.setFATEntry d (v.allocCluster d) 0x0FFFFFFF) (v.allocCluster d) buffer)
      v.addStops D

namespace Discipline

variable {v : Volume} {P : Event → Prop} {frees : Disk → Nat → Prop} {scans : Disk → Stops → Nat → Prop}
  (discipline : Discipline v P frees scans) {d : Disk} {fuel : Nat}

include discipline

theorem freeChainLoop {c : Nat} (known : frees d c) : All P (Run.freeChainLoop v fuel d c) := by
  induction fuel generalizing d c with
  | zero => exact All.cut
  | succ fuel ih =>
    unfold Run.freeChainLoop
    split
    · next inside =>
        obtain ⟨set, onward⟩ := discipline.free known inside.1 inside.2
        refine (Observes.setFATEntry d set _).bind fun d' result => ?_
        cases result
        exact ih onward
    · exact All.pure _

section Directory

variable {D : Nat} {name83 : Name} (visits : D < endOfChain → v.Usable)

include visits

theorem addDirEntryLoop {entry : DirEntry} {prevCluster : Nat}
    (prev : 0 < v.bpb.fatSize32 → P (.setFATEntry prevCluster .disk)) (known : scans d v.addStops D) :
    All P (Run.addDirEntryLoop v d entry fuel prevCluster D) := by
  induction fuel generalizing prevCluster D with
  | zero => exact All.cut
  | succ fuel ih =>
    unfold Run.addDirEntryLoop
    split
    · next inside =>
        obtain ⟨set, write, onward⟩ := discipline.scan known inside
        refine (discipline.readCluster d (visits inside) _).bind fun buffer read => ?_
        cases read
        refine (discipline.entries (visits inside) v.bufEntries_le _).bind fun found listed => ?_
        cases listed
        split
        · exact (discipline.writeCluster d (visits inside) write _).bind fun _ _ => All.pure _
        · next here =>
            refine ih (fun _ => visits inside) (fun _ => set) (onward ?_)
            rw [Volume.addStops, here]
            exact Bool.false_ne_true
    · refine (discipline.allocCluster d).bind fun next alloc => ?_
      split
      · exact All.pure _
      · next nonzero =>
          obtain ⟨usable, theirs⟩ := discipline.given d alloc nonzero
          rw [allocCluster_result] at alloc
          cases alloc
          have set := prev (Volume.allocCluster_spec nonzero).1
          exact (discipline.emitBufSize usable).bind fun _ _ =>
            (discipline.emitBuffer usable (by omega)).bind fun _ _ =>
            (Observes.setFATEntry d set _).bind fun d _ =>
            (Observes.setFATEntry d theirs.1 _).bind fun d _ =>
            (discipline.writeCluster d usable theirs.2 _).bind fun _ _ => All.pure _

theorem markEntryDeletedLoop (known : scans d (v.markStops name83) D) :
    All P (Run.markEntryDeletedLoop v d name83 fuel D) := by
  induction fuel generalizing D with
  | zero => exact All.cut
  | succ fuel ih =>
    unfold Run.markEntryDeletedLoop
    split
    · next inside =>
        obtain ⟨-, write, onward⟩ := discipline.scan known inside
        refine (discipline.readCluster d (visits inside) _).bind fun buffer read => ?_
        cases read
        refine (discipline.entries (visits inside) v.bufEntries_le _).bind fun found listed => ?_
        cases listed
        split
        · exact All.pure _
        · exact (discipline.writeCluster d (visits inside) write _).bind fun _ _ => All.pure _
        · next here => exact ih (fun _ => visits inside) (onward (not_not.mpr here))
    · exact All.pure _

theorem storeFile {existed : Bool} {data : List UInt8}
    (known : scans d (if existed then v.markStops name83 else v.addStops) D) :
    All P (Run.storeFile v fuel d D name83 existed data) := by
  refine (discipline.allocCluster d).bind fun first alloc => ?_
  split
  · exact All.pure _
  · next nonzero =>
      obtain ⟨usable, mine⟩ := discipline.given d alloc nonzero
      rw [allocCluster_result] at alloc
      cases alloc
      refine (Observes.setFATEntry d mine.1 _).bind fun d' set => ?_
      cases set
      refine (discipline.writeClusterChain _ fuel usable mine data).bind fun written ran => ?_
      obtain ⟨d₁, stored⟩ := written
      have known := discipline.stored known nonzero ran
      dsimp only
      split
      · exact All.pure _
      · cases existed with
        | false => exact discipline.addDirEntryLoop visits discipline.first known
        | true =>
          refine ((discipline.markEntryDeletedLoop visits known).bind fun _ _ => All.pure _).bind
            fun d₂ marked => ?_
          rw [result_bind, markEntryDeletedLoop_result, Option.bind_eq_some_iff] at marked
          obtain ⟨⟨d₂, found⟩, ran, returned⟩ := marked
          cases returned
          exact discipline.addDirEntryLoop visits discipline.first (discipline.marked known ran)

end Directory

variable {path : CString}

/-- The file that is freed, and the directory when that has been done. -/
def Frees (v : Volume) (frees : Disk → Nat → Prop) (scans : Disk → Stops → Nat → Prop) (d : Disk)
    (path : CString) : Prop :=
  ∀ D name, v.resolveParentDir d path = some (some (D, name)) →
    ∀ e, v.findEntry d D name = some (some e) → e.isDirectory = false →
      frees d e.startCluster ∧ ∀ fuel d', v.freeChainLoop fuel d e.startCluster = some d' →
        scans d' (v.markStops (toShortName name)) D

theorem writeFile {data : List UInt8} (known : Frees v frees scans d path)
    (absent : ∀ D name, v.resolveParentDir d path = some (some (D, name)) →
      v.findEntry d D name = some none → scans d v.addStops D) :
    All P (Run.writeFile v fuel d path data) := by
  refine discipline.bindParent d fuel path (All.pure _) fun place resolved visits => ?_
  have resolved := Volume.resolveParentDir_of_run resolved
  refine (discipline.findEntry d fuel visits _).bind fun found lookup => ?_
  have lookup := Volume.findEntry_of_run lookup
  cases found with
  | none => exact discipline.storeFile visits (absent _ _ resolved lookup)
  | some existing =>
    dsimp only
    split
    · exact All.pure _
    · next file =>
        obtain ⟨start, later⟩ := known _ _ resolved existing lookup (eq_false_of_ne_true file)
        refine (discipline.freeChainLoop start).bind fun d' freed => ?_
        rw [freeChainLoop_result] at freed
        exact discipline.storeFile visits (later fuel d' freed)

theorem deleteFile (known : Frees v frees scans d path) : All P (Run.deleteFile v fuel d path) := by
  refine discipline.bindParent d fuel path (All.pure _) fun place resolved visits => ?_
  have resolved := Volume.resolveParentDir_of_run resolved
  refine (discipline.findEntry d fuel visits _).bind fun found lookup => ?_
  have lookup := Volume.findEntry_of_run lookup
  cases found with
  | none => exact All.pure _
  | some entry =>
    dsimp only
    split
    · exact All.pure _
    · next file =>
        obtain ⟨start, later⟩ := known _ _ resolved entry lookup (eq_false_of_ne_true file)
        refine (discipline.freeChainLoop start).bind fun d' freed => ?_
        rw [freeChainLoop_result] at freed
        exact discipline.markEntryDeletedLoop visits (later fuel d' freed)

theorem makeDir (known : ∀ D name, v.resolveParentDir d path = some (some (D, name)) →
    scans d v.addStops D) : All P (Run.makeDir v fuel d path) := by
  refine discipline.bindParent d fuel path (All.pure _) fun place resolved visits => ?_
  refine (discipline.allocCluster d).bind fun newCluster alloc => ?_
  split
  · exact All.pure _
  · next nonzero =>
      obtain ⟨usable, mine⟩ := discipline.given d alloc nonzero
      rw [allocCluster_result] at alloc
      cases alloc
      refine (Observes.setFATEntry d mine.1 _).bind fun d₁ set => ?_
      cases set
      refine (discipline.emitBufSize usable).bind fun _ _ =>
        (discipline.emitBuffer usable (le_max_right _ _)).bind fun _ _ =>
        (discipline.writeCluster _ usable mine.2 _).bind fun d₂ written => ?_
      cases written
      exact discipline.addDirEntryLoop visits discipline.first
        (discipline.made _ (known _ _ (Volume.resolveParentDir_of_run resolved)) nonzero)

end Discipline

theorem Permits.discipline {v : Volume} {P : Event → Prop} (permits : Permits v P) :
    Discipline v P (fun _ _ => True) (fun _ _ _ => True) where
  toObserves := permits.toObserves
  free _ _ _ := ⟨(permits.disk _).1, trivial⟩
  scan _ _ := ⟨(permits.disk _).1, (permits.disk _).2, fun _ => trivial⟩
  first _ := (permits.disk 0).1
  stored _ _ _ := trivial
  marked _ _ := trivial
  made _ _ _ := trivial

end Run

theorem Request.permitted {v : Volume} {P : Event → Prop} (permits : Run.Permits v P) (fuel : Nat)
    (d : Disk) (request : Request) : ∀ event ∈ request.trace v fuel d, P event := by
  have frees {path : CString} : Run.Discipline.Frees v (fun _ _ => True) (fun _ _ _ => True) d path :=
    fun _ _ _ _ _ _ => ⟨trivial, fun _ _ _ => trivial⟩
  cases request with
  | readFile path => exact permits.readFile d fuel path
  | isDirectory path => exact permits.isDirectory d fuel path
  | listDirectory path => exact permits.list d fuel le_rfl path
  | listDirectoryToBuffer path => exact permits.list d fuel v.bufEntries_le path
  | writeFile path data => exact permits.discipline.writeFile frees fun _ _ _ _ => trivial
  | createFile path => exact permits.discipline.writeFile frees fun _ _ _ _ => trivial
  | deleteFile path => exact permits.discipline.deleteFile frees
  | makeDir path => exact permits.discipline.makeDir fun _ _ _ => trivial

end LaylaOS.Fs
