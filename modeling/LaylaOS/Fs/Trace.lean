/-
**What the FAT32 driver touches.**

The driver again, with its effects: the sectors it writes, by cluster number and by where that number
came from, the part of the 4096-byte `cluster_buf` it uses, and the divisors it divides by. Every loop
has the same fuel, so that the traces for all fuels show a call for as long as it runs.
-/

import LaylaOS.Lib.Traced
import LaylaOS.Fs.Fat32

namespace LaylaOS.Fs

open LaylaOS.Lib Traced

/-- Where a cluster number comes from: `AllocCluster`, or the boot sector, a directory entry or the
FAT. -/
inductive Origin
  | allocated
  | disk
  deriving DecidableEq

inductive Event
  /-- An access to `cluster_buf[k]` for every `k < extent` at most. -/
  | buffer (extent : Nat)
  | division (divisor : Nat)
  | setFATEntry (cluster : Nat) (origin : Origin)
  | writeCluster (cluster : Nat) (origin : Origin)
  deriving DecidableEq

namespace Volume

variable (v : Volume)

/-- The locals `total_sectors` and `data_offset` of `AllocCluster`. -/
def totalSectors : Nat :=
  if v.bpb.totalSectors32 ≠ 0 then v.bpb.totalSectors32 else v.bpb.totalSectors16

def dataOffset : Nat := (v.dataLba + 2 ^ 32 - v.partitionLba) % 2 ^ 32

end Volume

namespace Run

variable (v : Volume)

/-! ### Sectors and clusters -/

/-- `ReadCluster(cluster, cluster_buf)`. -/
def readCluster (d : Disk) (cluster : Nat) : Traced Event Storage := do
  emit (.buffer v.clusterSize)
  return v.readCluster d cluster

/-- `WriteCluster(cluster, cluster_buf)`. -/
def writeCluster (d : Disk) (cluster : Nat) (origin : Origin) (buffer : Storage) :
    Traced Event Disk := do
  emit (.buffer v.clusterSize)
  emit (.writeCluster cluster origin)
  return v.writeCluster d cluster buffer

def setFATEntry (d : Disk) (cluster : Nat) (origin : Origin) (value : Nat) : Traced Event Disk := do
  emit (.setFATEntry cluster origin)
  return v.setFATEntry d cluster value

def allocCluster (d : Disk) : Traced Event Nat :=
  if v.totalSectors > v.dataOffset then do
    emit (.division v.bpb.sectorsPerCluster)
    return v.allocCluster d
  else return v.allocCluster d

/-- A loop over `entries[i]` for `i < count`. -/
def entries (count : Nat) (buffer : Storage) : Traced Event (List DirEntry) := do
  emit (.buffer (count * 32))
  return entriesOf count buffer

/-! ### Lookup -/

def findEntryLoop (d : Disk) (name83 : Name) : Nat → Nat → Traced Event (Option DirEntry)
  | 0, _ => cut
  | fuel + 1, cluster =>
    if cluster < endOfChain then do
      let buffer ← readCluster v d cluster
      let found ← entries (v.clusterSize / 32) buffer
      match scan Volume.findSkips name83 found 0 with
      | .stop => return none
      | .hit i => return some (entryAt buffer i)
      | .next => findEntryLoop d name83 fuel (v.nextCluster d cluster)
    else return none

variable (fuel : Nat)

def findEntry (d : Disk) (dirCluster : Nat) (name : List UInt8) : Traced Event (Option DirEntry) :=
  findEntryLoop v d (toShortName name) fuel dirCluster

def resolveParentLoop (d : Disk) : Nat → List (List UInt8) → Traced Event (Option (Nat × List UInt8))
  | _, [] => return none
  | dirCluster, [last] => return some (dirCluster, last)
  | dirCluster, name :: next :: rest => do
    match ← findEntry v fuel d dirCluster name with
    | none => return none
    | some entry =>
      if entry.isDirectory then resolveParentLoop d entry.startCluster (next :: rest)
      else return none

def resolveParentDir (d : Disk) (path : CString) : Traced Event (Option (Nat × List UInt8)) :=
  resolveParentLoop v fuel d v.bpb.rootCluster (parentComponents path)

def resolvePathLoop (d : Disk) : Nat → List (List UInt8) → Traced Event (Option DirEntry)
  | _, [] => return none
  | dirCluster, name :: rest => do
    match ← findEntry v fuel d dirCluster name with
    | none => return none
    | some entry =>
      if rest = [] then return some entry
      else if entry.isDirectory then resolvePathLoop d entry.startCluster rest
      else return none

def resolvePath (d : Disk) (path : CString) : Traced Event (Option Volume.Target) :=
  if pathComponents path = [] then return some .root
  else do
    let found ← resolvePathLoop v fuel d v.bpb.rootCluster (pathComponents path)
    return found.map .entry

/-! ### Reading -/

/-- The loop of `ReadFile`; its clusters go to the caller's buffer. -/
def readChainLoop (d : Disk) : Nat → Nat → Traced Event (List UInt8)
  | 0, _ => cut
  | fuel + 1, cluster =>
    if cluster < endOfChain then do
      let rest ← readChainLoop d fuel (v.nextCluster d cluster)
      return v.clusterBytes (v.readCluster d cluster) ++ rest
    else return []

def readFile (d : Disk) (path : CString) : Traced Event (Option (Nat × List UInt8)) := do
  match ← resolvePath v fuel d path with
  | none => return none
  | some .root => return none
  | some (.entry e) =>
    if e.isDirectory then return none
    else
      let bytes ← readChainLoop v d fuel e.startCluster
      return some (e.size, bytes)

def isDirectory (d : Disk) (path : CString) : Traced Event Bool := do
  match ← resolvePath v fuel d path with
  | none => return false
  | some .root => return true
  | some (.entry e) => return e.isDirectory

/-- The loop of `ListDirectory` and `ListDirectoryToBuffer`, without what they print: they look at
`count` entries of a cluster. -/
def listLoop (d : Disk) (count : Nat) : Nat → Nat → Traced Event Unit
  | 0, _ => cut
  | fuel + 1, cluster =>
    if cluster < endOfChain then do
      let buffer ← readCluster v d cluster
      let found ← entries count buffer
      if found.any (·.first == 0) then return ()
      else listLoop d count fuel (v.nextCluster d cluster)
    else return ()

/-- The two listings, which differ in the entries they look at. -/
def list (d : Disk) (count : Nat) (path : CString) : Traced Event Bool := do
  match ← resolvePath v fuel d path with
  | none => return false
  | some .root =>
    listLoop v d count fuel v.bpb.rootCluster
    return true
  | some (.entry e) =>
    if e.isDirectory then
      listLoop v d count fuel e.startCluster
      return true
    else return false

def listDirectory (d : Disk) (path : CString) : Traced Event Bool :=
  list v fuel d (v.clusterSize / 32) path

def listDirectoryToBuffer (d : Disk) (path : CString) : Traced Event Bool :=
  list v fuel d (v.bufSize / 32) path

/-! ### Writing -/

def writeChainLoop : Nat → Disk → Nat → List UInt8 → Traced Event (Disk × Bool)
  | 0, _, _, _ => cut
  | fuel + 1, d, cluster, rest =>
    if rest = [] then return (d, true)
    else do
      emit (.buffer v.bufSize)
      let d ← writeCluster v d cluster .allocated fun k => (rest.take v.bufSize).getD k 0
      let rest := rest.drop v.bufSize
      if rest ≠ [] then
        let next ← allocCluster v d
        if next = 0 then return (d, false)
        else
          let d ← setFATEntry v d cluster .allocated next
          let d ← setFATEntry v d next .allocated 0x0FFFFFFF
          writeChainLoop fuel d next rest
      else
        let d ← setFATEntry v d cluster .allocated 0x0FFFFFFF
        writeChainLoop fuel d cluster rest

def writeClusterChain (d : Disk) (firstCluster : Nat) (data : List UInt8) :
    Traced Event (Disk × Bool) :=
  if data = [] then do
    emit (.buffer v.bufSize)
    let d ← writeCluster v d firstCluster .allocated fun _ => 0
    let d ← setFATEntry v d firstCluster .allocated 0x0FFFFFFF
    return (d, true)
  else writeChainLoop v fuel d firstCluster data

def freeChainLoop : Nat → Disk → Nat → Traced Event Disk
  | 0, _, _ => cut
  | fuel + 1, d, c =>
    if 2 ≤ c ∧ c < endOfChain then do
      let next := v.nextCluster d c
      let d ← setFATEntry v d c .disk 0
      freeChainLoop fuel d next
    else return d

def addDirEntryLoop (d : Disk) (entry : DirEntry) : Nat → Nat → Nat → Traced Event (Disk × Bool)
  | 0, _, _ => cut
  | fuel + 1, prevCluster, cluster =>
    if cluster < endOfChain then do
      let buffer ← readCluster v d cluster
      let found ← entries (v.bufSize / 32) buffer
      match found.findIdx? DirEntry.isDead with
      | some i =>
        let d ← writeCluster v d cluster .disk (putEntry buffer i entry)
        return (d, true)
      | none => addDirEntryLoop d entry fuel cluster (v.nextCluster d cluster)
    else do
      let newCluster ← allocCluster v d
      if newCluster = 0 then return (d, false)
      else
        -- the zeros, and the entry at the front
        emit (.buffer v.bufSize)
        emit (.buffer 32)
        let d ← setFATEntry v d prevCluster .disk newCluster
        let d ← setFATEntry v d newCluster .allocated 0x0FFFFFFF
        let d ← writeCluster v d newCluster .allocated (putEntry (fun _ => 0) 0 entry)
        return (d, true)

def addDirEntry (d : Disk) (dirCluster : Nat) (entry : DirEntry) : Traced Event (Disk × Bool) :=
  addDirEntryLoop v d entry fuel 0 dirCluster

def markEntryDeletedLoop (d : Disk) (name83 : Name) : Nat → Nat → Traced Event (Disk × Bool)
  | 0, _ => cut
  | fuel + 1, cluster =>
    if cluster < endOfChain then do
      let buffer ← readCluster v d cluster
      let found ← entries (v.bufSize / 32) buffer
      match scan (fun e => e.first == 0xE5) name83 found 0 with
      | .stop => return (d, false)
      | .hit i =>
        let d ← writeCluster v d cluster .disk (putEntry buffer i (entryAt buffer i).deleted)
        return (d, true)
      | .next => markEntryDeletedLoop d name83 fuel (v.nextCluster d cluster)
    else return (d, false)

def markEntryDeleted (d : Disk) (dirCluster : Nat) (name83 : Name) : Traced Event (Disk × Bool) :=
  markEntryDeletedLoop v d name83 fuel dirCluster

def storeFile (d : Disk) (dirCluster : Nat) (name83 : Name) (existed : Bool) (data : List UInt8) :
    Traced Event (Disk × Bool) := do
  let first ← allocCluster v d
  if first = 0 then return (d, false)
  else
    let d ← setFATEntry v d first .allocated 0x0FFFFFFF
    let (d, stored) ← writeClusterChain v fuel d first data
    if !stored then return (d, false)
    else
      let d ← if existed then (·.1) <$> markEntryDeleted v fuel d dirCluster name83 else pure d
      addDirEntry v fuel d dirCluster (buildDirEntry name83 0x20 first data.length)

def writeFileIn (d : Disk) (dirCluster : Nat) (name : List UInt8) (data : List UInt8) :
    Traced Event (Disk × Bool) := do
  match ← findEntry v fuel d dirCluster name with
  | none => storeFile v fuel d dirCluster (toShortName name) false data
  | some existing =>
    if existing.isDirectory then return (d, false)
    else
      let d ← freeChainLoop v fuel d existing.startCluster
      storeFile v fuel d dirCluster (toShortName name) true data

def writeFile (d : Disk) (path : CString) (data : List UInt8) : Traced Event (Disk × Bool) := do
  match ← resolveParentDir v fuel d path with
  | none => return (d, false)
  | some (dirCluster, name) => writeFileIn v fuel d dirCluster name data

def createFile (d : Disk) (path : CString) : Traced Event (Disk × Bool) := writeFile v fuel d path []

def deleteFile (d : Disk) (path : CString) : Traced Event (Disk × Bool) := do
  match ← resolveParentDir v fuel d path with
  | none => return (d, false)
  | some (dirCluster, name) =>
    match ← findEntry v fuel d dirCluster name with
    | none => return (d, false)
    | some entry =>
      if entry.isDirectory then return (d, false)
      else
        let d ← freeChainLoop v fuel d entry.startCluster
        markEntryDeleted v fuel d dirCluster (toShortName name)

def makeDir (d : Disk) (path : CString) : Traced Event (Disk × Bool) := do
  match ← resolveParentDir v fuel d path with
  | none => return (d, false)
  | some (dirCluster, name) =>
    let newCluster ← allocCluster v d
    if newCluster = 0 then return (d, false)
    else
      let d ← setFATEntry v d newCluster .allocated 0x0FFFFFFF
      -- the zeros, then `.` and `..`
      emit (.buffer v.bufSize)
      emit (.buffer 64)
      let d ← writeCluster v d newCluster .allocated (v.newDirectory newCluster dirCluster)
      addDirEntry v fuel d dirCluster (buildDirEntry (toShortName name) 0x10 newCluster 0)

/-! ### Without the effects -/

section Erasure

variable (d : Disk)

@[simp] theorem readCluster_result (cluster : Nat) :
    (readCluster v d cluster).result = some (v.readCluster d cluster) := rfl

@[simp] theorem writeCluster_result (cluster : Nat) (origin : Origin) (buffer : Storage) :
    (writeCluster v d cluster origin buffer).result = some (v.writeCluster d cluster buffer) := rfl

@[simp] theorem setFATEntry_result (cluster : Nat) (origin : Origin) (value : Nat) :
    (setFATEntry v d cluster origin value).result = some (v.setFATEntry d cluster value) := rfl

@[simp] theorem entries_result (count : Nat) (buffer : Storage) :
    (entries count buffer).result = some (entriesOf count buffer) := rfl

@[simp] theorem allocCluster_result : (allocCluster v d).result = some (v.allocCluster d) := by
  unfold allocCluster
  split
  · rw [result_bind]
    exact result_pure _
  · exact result_pure _

theorem findEntryLoop_result (name83 : Name) (fuel cluster : Nat) :
    (findEntryLoop v d name83 fuel cluster).result = v.findEntryLoop d name83 fuel cluster := by
  induction fuel generalizing cluster with
  | zero => rfl
  | succ fuel ih =>
    unfold findEntryLoop Volume.findEntryLoop
    split
    · simp only [result_bind, readCluster_result, entries_result, Option.bind_some]
      cases scan Volume.findSkips name83
          (entriesOf (v.clusterSize / 32) (v.readCluster d cluster)) 0 with
      | stop => rfl
      | hit i => rfl
      | next => exact ih _
    · rfl

theorem findEntry_result (dirCluster : Nat) (name : List UInt8) :
    (findEntry v loopFuel d dirCluster name).result = v.findEntry d dirCluster name := by
  rw [findEntry, Volume.findEntry, findEntryLoop_result]

theorem resolveParentLoop_result (dirCluster : Nat) (names : List (List UInt8)) :
    (resolveParentLoop v loopFuel d dirCluster names).result = v.resolveParentLoop d dirCluster names := by
  fun_induction Volume.resolveParentLoop v d dirCluster names with
  | case1 => rfl
  | case2 => rfl
  | case3 dirCluster name next rest ih =>
    rw [resolveParentLoop, result_bind, findEntry_result]
    refine Option.bind_congr fun found _ => ?_
    cases found with
    | none => rfl
    | some entry =>
      dsimp only
      split
      · exact ih entry
      · rfl

theorem resolveParentDir_result (path : CString) :
    (resolveParentDir v loopFuel d path).result = v.resolveParentDir d path := by
  rw [resolveParentDir, Volume.resolveParentDir, resolveParentLoop_result]

theorem resolvePathLoop_result (dirCluster : Nat) (names : List (List UInt8)) :
    (resolvePathLoop v loopFuel d dirCluster names).result = v.resolvePathLoop d dirCluster names := by
  induction names generalizing dirCluster with
  | nil => rfl
  | cons name rest ih =>
    rw [resolvePathLoop, Volume.resolvePathLoop, result_bind, findEntry_result]
    refine Option.bind_congr fun found _ => ?_
    cases found with
    | none => rfl
    | some entry =>
      dsimp only
      split
      · rfl
      · split
        · exact ih entry.startCluster
        · rfl

theorem resolvePath_result (path : CString) :
    (resolvePath v loopFuel d path).result = v.resolvePath d path := by
  unfold resolvePath Volume.resolvePath
  split
  · rfl
  · rw [result_bind, resolvePathLoop_result, Option.map_eq_bind]
    rfl

theorem readChainLoop_result (fuel cluster : Nat) :
    (readChainLoop v d fuel cluster).result = v.readChainLoop d fuel cluster := by
  induction fuel generalizing cluster with
  | zero => rfl
  | succ fuel ih =>
    unfold readChainLoop Volume.readChainLoop
    split
    · rw [result_bind, ih]
      rfl
    · rfl

theorem readFile_result (path : CString) : (readFile v loopFuel d path).result = v.readFile d path := by
  unfold readFile Volume.readFile
  rw [result_bind, resolvePath_result]
  refine Option.bind_congr fun target _ => ?_
  rcases target with _ | _ | e
  · rfl
  · rfl
  · dsimp only
    split
    · rfl
    · rw [result_bind, readChainLoop_result]
      rfl

theorem isDirectory_result (path : CString) :
    (isDirectory v loopFuel d path).result = v.isDirectory d path := by
  unfold isDirectory Volume.isDirectory
  rw [result_bind, resolvePath_result]
  refine Option.bind_congr fun target _ => ?_
  rcases target with _ | _ | e <;> rfl

theorem listLoop_result (fuel cluster : Nat) :
    (listLoop v d (v.clusterSize / 32) fuel cluster).result = v.listLoop d fuel cluster := by
  induction fuel generalizing cluster with
  | zero => rfl
  | succ fuel ih =>
    unfold listLoop Volume.listLoop
    split
    · simp only [result_bind, readCluster_result, entries_result, Option.bind_some]
      split
      · rfl
      · exact ih _
    · rfl

theorem listDirectory_result (path : CString) :
    (listDirectory v loopFuel d path).result = v.listDirectory d path := by
  unfold listDirectory list Volume.listDirectory
  rw [result_bind, resolvePath_result]
  refine Option.bind_congr fun target _ => ?_
  rcases target with _ | _ | e
  · rfl
  · dsimp only
    rw [result_bind, listLoop_result]
    rfl
  · dsimp only
    split
    · rw [result_bind, listLoop_result]
      rfl
    · rfl

theorem writeChainLoop_result (fuel cluster : Nat) (rest : List UInt8) :
    (writeChainLoop v fuel d cluster rest).result = v.writeChainLoop fuel d cluster rest := by
  induction fuel generalizing d cluster rest with
  | zero => rfl
  | succ fuel ih =>
    unfold writeChainLoop Volume.writeChainLoop
    split
    · rfl
    · simp only [result_bind, result_emit, writeCluster_result, Option.bind_some]
      split
      · simp only [result_bind, allocCluster_result, Option.bind_some]
        split
        · rfl
        · simp only [result_bind, setFATEntry_result, Option.bind_some, ih]
      · simp only [result_bind, setFATEntry_result, Option.bind_some, ih]

theorem writeClusterChain_result (firstCluster : Nat) (data : List UInt8) :
    (writeClusterChain v loopFuel d firstCluster data).result = v.writeClusterChain d firstCluster data := by
  unfold writeClusterChain Volume.writeClusterChain
  split
  · rfl
  · rw [writeChainLoop_result]

theorem freeChainLoop_result (fuel c : Nat) : (freeChainLoop v fuel d c).result = v.freeChainLoop fuel d c := by
  induction fuel generalizing d c with
  | zero => rfl
  | succ fuel ih =>
    unfold freeChainLoop Volume.freeChainLoop
    split
    · simp only [result_bind, setFATEntry_result, Option.bind_some, ih]
    · rfl

theorem addDirEntryLoop_result (entry : DirEntry) (fuel prevCluster cluster : Nat) :
    (addDirEntryLoop v d entry fuel prevCluster cluster).result =
      v.addDirEntryLoop d entry fuel prevCluster cluster := by
  induction fuel generalizing prevCluster cluster with
  | zero => rfl
  | succ fuel ih =>
    unfold addDirEntryLoop Volume.addDirEntryLoop
    split
    · simp only [result_bind, readCluster_result, entries_result, Option.bind_some]
      cases (entriesOf (v.bufSize / 32) (v.readCluster d cluster)).findIdx? DirEntry.isDead with
      | some i => rfl
      | none => exact ih _ _
    · simp only [result_bind, allocCluster_result, Option.bind_some]
      split <;> rfl

theorem addDirEntry_result (dirCluster : Nat) (entry : DirEntry) :
    (addDirEntry v loopFuel d dirCluster entry).result = v.addDirEntry d dirCluster entry := by
  rw [addDirEntry, Volume.addDirEntry, addDirEntryLoop_result]

theorem markEntryDeletedLoop_result (name83 : Name) (fuel cluster : Nat) :
    (markEntryDeletedLoop v d name83 fuel cluster).result = v.markEntryDeletedLoop d name83 fuel cluster := by
  induction fuel generalizing cluster with
  | zero => rfl
  | succ fuel ih =>
    unfold markEntryDeletedLoop Volume.markEntryDeletedLoop
    split
    · simp only [result_bind, readCluster_result, entries_result, Option.bind_some]
      cases scan (fun e => e.first == 0xE5) name83
          (entriesOf (v.bufSize / 32) (v.readCluster d cluster)) 0 with
      | stop => rfl
      | hit i => rfl
      | next => exact ih _
    · rfl

theorem markEntryDeleted_result (dirCluster : Nat) (name83 : Name) :
    (markEntryDeleted v loopFuel d dirCluster name83).result = v.markEntryDeleted d dirCluster name83 := by
  rw [markEntryDeleted, Volume.markEntryDeleted, markEntryDeletedLoop_result]

theorem storeFile_result (dirCluster : Nat) (name83 : Name) (existed : Bool) (data : List UInt8) :
    (storeFile v loopFuel d dirCluster name83 existed data).result =
      v.storeFile d dirCluster name83 existed data := by
  unfold storeFile Volume.storeFile
  simp only [result_bind, allocCluster_result, Option.bind_some]
  split
  · rfl
  · simp only [result_bind, setFATEntry_result, Option.bind_some, writeClusterChain_result]
    refine Option.bind_congr fun written _ => ?_
    split
    · rfl
    · cases existed <;> simp [addDirEntry_result, markEntryDeleted_result]

theorem writeFileIn_result (dirCluster : Nat) (name data : List UInt8) :
    (writeFileIn v loopFuel d dirCluster name data).result = v.writeFileIn d dirCluster name data := by
  unfold writeFileIn Volume.writeFileIn
  rw [result_bind, findEntry_result]
  refine Option.bind_congr fun found _ => ?_
  cases found with
  | none => exact storeFile_result v d _ _ _ _
  | some existing =>
    dsimp only
    split
    · rfl
    · rw [result_bind, freeChainLoop_result]
      exact Option.bind_congr fun d _ => storeFile_result v d _ _ _ _

theorem writeFile_result (path : CString) (data : List UInt8) :
    (writeFile v loopFuel d path data).result = v.writeFile d path data := by
  unfold writeFile Volume.writeFile
  rw [result_bind, resolveParentDir_result]
  refine Option.bind_congr fun parent _ => ?_
  cases parent with
  | none => rfl
  | some place => exact writeFileIn_result v d _ _ _

theorem deleteFile_result (path : CString) : (deleteFile v loopFuel d path).result = v.deleteFile d path := by
  unfold deleteFile Volume.deleteFile
  rw [result_bind, resolveParentDir_result]
  refine Option.bind_congr fun parent _ => ?_
  cases parent with
  | none => rfl
  | some place =>
    dsimp only
    rw [result_bind, findEntry_result]
    refine Option.bind_congr fun found _ => ?_
    cases found with
    | none => rfl
    | some entry =>
      dsimp only
      split
      · rfl
      · rw [result_bind, freeChainLoop_result]
        exact Option.bind_congr fun d _ => markEntryDeleted_result v d _ _

theorem makeDir_result (path : CString) : (makeDir v loopFuel d path).result = v.makeDir d path := by
  unfold makeDir Volume.makeDir
  rw [result_bind, resolveParentDir_result]
  refine Option.bind_congr fun parent _ => ?_
  cases parent with
  | none => rfl
  | some place =>
    simp only [result_bind, allocCluster_result, Option.bind_some]
    split
    · rfl
    · simp only [result_bind, result_emit, setFATEntry_result, writeCluster_result,
        Option.bind_some, addDirEntry_result]

end Erasure

end Run

/-- A call of the driver. -/
inductive Request
  | readFile (path : CString)
  | isDirectory (path : CString)
  | listDirectory (path : CString)
  | listDirectoryToBuffer (path : CString)
  | writeFile (path : CString) (data : List UInt8)
  | createFile (path : CString)
  | deleteFile (path : CString)
  | makeDir (path : CString)

/-- What happens during the call, as far as the fuel goes. -/
def Request.trace (v : Volume) (fuel : Nat) (d : Disk) : Request → List Event
  | .readFile path => (Run.readFile v fuel d path).trace
  | .isDirectory path => (Run.isDirectory v fuel d path).trace
  | .listDirectory path => (Run.listDirectory v fuel d path).trace
  | .listDirectoryToBuffer path => (Run.listDirectoryToBuffer v fuel d path).trace
  | .writeFile path data => (Run.writeFile v fuel d path data).trace
  | .createFile path => (Run.createFile v fuel d path).trace
  | .deleteFile path => (Run.deleteFile v fuel d path).trace
  | .makeDir path => (Run.makeDir v fuel d path).trace

end LaylaOS.Fs
