/-
**The FAT32 driver.**

`fat32.cpp` from `FindEntry` to `MakeDir`. Every loop over a cluster chain reads its next step from
the disk, so on a damaged volume it may never end: such functions return `none` then. A loop whose
`uint32_t cluster` has taken `2 ^ 32` steps on an unchanged disk has met a cluster twice and goes
on for ever, which makes `loopFuel` exact.

`ReadFile` is given a buffer as long as the chain it reads.
-/

import LaylaOS.Fs.Volume
import LaylaOS.Fs.Entry

namespace LaylaOS.Fs

open LaylaOS.Lib

/-- The least FAT entry that ends a chain. -/
def endOfChain : Nat := 0x0FFFFFF8

/-- The rounds after which a loop that still runs never ends. -/
def loopFuel : Nat := 2 ^ 32

/-- A C string: its bytes in front of the terminating NUL. -/
abbrev CString := { bytes : List UInt8 // 0 ∉ bytes }

/-- The first `count` entries of a cluster buffer. -/
def entriesOf (count : Nat) (buffer : Storage) : List DirEntry :=
  (List.range count).map (entryAt buffer)

/-- What the scan of one cluster decides: go on with the next cluster, give up at a 0x00 entry, or
act on the entry at an index. -/
inductive Scan where
  | next
  | stop
  | hit (index : Nat)
  deriving DecidableEq

/-- The inner loop of `FindEntry` and `MarkEntryDeleted`, which differ in the entries they skip. -/
def scan (skips : DirEntry → Bool) (name83 : Name) : List DirEntry → Nat → Scan
  | [], _ => .next
  | e :: rest, i =>
    if e.first = 0 then .stop
    else if skips e then scan skips name83 rest (i + 1)
    else if namesMatch e name83 then .hit i
    else scan skips name83 rest (i + 1)

/-! ### Cutting a path into components -/

/-- `if (path[i] == '/') i++`. -/
def skipSlash : List UInt8 → List UInt8
  | 47 :: rest => rest
  | path => path

/-- `while (path[i] == '/') i++`. -/
def skipSlashes (path : List UInt8) : List UInt8 := path.dropWhile (· = 47)

/-- The `char component[13]` both resolvers fill: up to a slash, at most 12 bytes. -/
def component (path : List UInt8) : List UInt8 := (path.takeWhile (· ≠ 47)).take 12

/-- The components in order; `skip` is what the resolver does behind each of them. Every round
takes at least one byte of the path. -/
def cutPath (skip : List UInt8 → List UInt8) : Nat → List UInt8 → List (List UInt8)
  | 0, _ => []
  | fuel + 1, path =>
    if path = [] then []
    else component path :: cutPath skip fuel (skip (path.drop (component path).length))

/-- The components `ResolveParentDir` sees. -/
def parentComponents (path : CString) : List (List UInt8) :=
  cutPath skipSlash path.val.length (skipSlash path.val)

/-- The components `ResolvePath` sees. -/
def pathComponents (path : CString) : List (List UInt8) :=
  cutPath skipSlashes path.val.length (skipSlashes path.val)

namespace Volume

variable (v : Volume)

/-! ### Lookup -/

/-- What `FindEntry` passes over: deleted entries and long-name entries. -/
def findSkips (e : DirEntry) : Bool := e.first == 0xE5 || e.attributes == 0x0F

def findEntryLoop (d : Disk) (name83 : Name) : Nat → Nat → Option (Option DirEntry)
  | 0, _ => none
  | fuel + 1, cluster =>
    if cluster < endOfChain then
      let buffer := v.readCluster d cluster
      match scan findSkips name83 (entriesOf (v.clusterSize / 32) buffer) 0 with
      | .stop => some none
      | .hit i => some (some (entryAt buffer i))
      | .next => findEntryLoop d name83 fuel (v.nextCluster d cluster)
    else some none

def findEntry (d : Disk) (dirCluster : Nat) (name : List UInt8) : Option (Option DirEntry) :=
  v.findEntryLoop d (toShortName name) loopFuel dirCluster

/-- The loop of `ResolveParentDir` over its components. -/
def resolveParentLoop (d : Disk) : Nat → List (List UInt8) → Option (Option (Nat × List UInt8))
  | _, [] => some none
  | dirCluster, [last] => some (some (dirCluster, last))
  | dirCluster, name :: next :: rest => do
    match ← v.findEntry d dirCluster name with
    | none => return none
    | some entry =>
      if entry.isDirectory then resolveParentLoop d entry.startCluster (next :: rest)
      else return none

/-- `ResolveParentDir`: the directory cluster and the last component. -/
def resolveParentDir (d : Disk) (path : CString) : Option (Option (Nat × List UInt8)) :=
  v.resolveParentLoop d v.bpb.rootCluster (parentComponents path)

/-- What a path resolves to: `is_root`, or an entry. -/
inductive Target where
  | root
  | entry (e : DirEntry)
  deriving DecidableEq

/-- The loop of `ResolvePath` over its components. -/
def resolvePathLoop (d : Disk) : Nat → List (List UInt8) → Option (Option DirEntry)
  | _, [] => some none
  | dirCluster, name :: rest => do
    match ← v.findEntry d dirCluster name with
    | none => return none
    | some entry =>
      if rest = [] then return some entry
      else if entry.isDirectory then resolvePathLoop d entry.startCluster rest
      else return none

def resolvePath (d : Disk) (path : CString) : Option (Option Target) :=
  if pathComponents path = [] then some (some .root)
  else (v.resolvePathLoop d v.bpb.rootCluster (pathComponents path)).map (·.map .entry)

/-! ### Reading a file -/

/-- The bytes one `ReadCluster` adds to the buffer. -/
def clusterBytes (buffer : Storage) : List UInt8 := (List.range v.clusterSize).map buffer

def readChainLoop (d : Disk) : Nat → Nat → Option (List UInt8)
  | 0, _ => none
  | fuel + 1, cluster =>
    if cluster < endOfChain then do
      let rest ← readChainLoop d fuel (v.nextCluster d cluster)
      return v.clusterBytes (v.readCluster d cluster) ++ rest
    else some []

/-- `ReadFile`: the `*size` it reports and all bytes it puts into the buffer. -/
def readFile (d : Disk) (path : CString) : Option (Option (Nat × List UInt8)) := do
  match ← v.resolvePath d path with
  | none => return none
  | some .root => return none
  | some (.entry e) =>
    if e.isDirectory then return none
    else
      let bytes ← v.readChainLoop d loopFuel e.startCluster
      return some (e.size, bytes)

/-! ### Directories as seen by the shell -/

/-- `IsDirectory`. -/
def isDirectory (d : Disk) (path : CString) : Option Bool := do
  match ← v.resolvePath d path with
  | none => return false
  | some .root => return true
  | some (.entry e) => return e.isDirectory

/-- The loop of `ListDirectory`, without what it prints: it stops behind the cluster with a 0x00
entry. -/
def listLoop (d : Disk) : Nat → Nat → Option Unit
  | 0, _ => none
  | fuel + 1, cluster =>
    if cluster < endOfChain then
      if (entriesOf (v.clusterSize / 32) (v.readCluster d cluster)).any (·.first == 0) then some ()
      else listLoop d fuel (v.nextCluster d cluster)
    else some ()

/-- The result of `ListDirectory`. -/
def listDirectory (d : Disk) (path : CString) : Option Bool := do
  match ← v.resolvePath d path with
  | none => return false
  | some .root =>
    v.listLoop d loopFuel v.bpb.rootCluster
    return true
  | some (.entry e) =>
    if e.isDirectory then
      v.listLoop d loopFuel e.startCluster
      return true
    else return false

/-! ### Writing -/

/-- The loop of `WriteClusterChain`; `rest` is what `buf` holds from `written` on. -/
def writeChainLoop : Nat → Disk → Nat → List UInt8 → Option (Disk × Bool)
  | 0, _, _, _ => none
  | fuel + 1, d, cluster, rest =>
    if rest = [] then some (d, true)
    else
      let d := v.writeCluster d cluster fun k => (rest.take v.bufSize).getD k 0
      let rest := rest.drop v.bufSize
      if rest ≠ [] then
        let next := v.allocCluster d
        if next = 0 then some (d, false)
        else
          let d := v.setFATEntry d cluster next
          let d := v.setFATEntry d next 0x0FFFFFFF
          writeChainLoop fuel d next rest
      else writeChainLoop fuel (v.setFATEntry d cluster 0x0FFFFFFF) cluster rest

def writeClusterChain (d : Disk) (firstCluster : Nat) (data : List UInt8) : Option (Disk × Bool) :=
  if data = [] then
    let d := v.writeCluster d firstCluster fun _ => 0
    some (v.setFATEntry d firstCluster 0x0FFFFFFF, true)
  else v.writeChainLoop loopFuel d firstCluster data

/-- The loop of `WriteFile` and `DeleteFile` that frees the chain of an entry. -/
def freeChainLoop : Nat → Disk → Nat → Option Disk
  | 0, _, _ => none
  | fuel + 1, d, c =>
    if 2 ≤ c ∧ c < endOfChain then
      let next := v.nextCluster d c
      freeChainLoop fuel (v.setFATEntry d c 0) next
    else some d

/-- The scan of `AddDirEntry`: the first slot that is unused or deleted; at the end of the chain
the directory grows by one cluster. -/
def addDirEntryLoop (d : Disk) (entry : DirEntry) : Nat → Nat → Nat → Option (Disk × Bool)
  | 0, _, _ => none
  | fuel + 1, prevCluster, cluster =>
    if cluster < endOfChain then
      let buffer := v.readCluster d cluster
      match (entriesOf (v.bufSize / 32) buffer).findIdx? DirEntry.isDead with
      | some i => some (v.writeCluster d cluster (putEntry buffer i entry), true)
      | none => addDirEntryLoop d entry fuel cluster (v.nextCluster d cluster)
    else
      let newCluster := v.allocCluster d
      if newCluster = 0 then some (d, false)
      else
        let d := v.setFATEntry d prevCluster newCluster
        let d := v.setFATEntry d newCluster 0x0FFFFFFF
        some (v.writeCluster d newCluster (putEntry (fun _ => 0) 0 entry), true)

def addDirEntry (d : Disk) (dirCluster : Nat) (entry : DirEntry) : Option (Disk × Bool) :=
  v.addDirEntryLoop d entry loopFuel 0 dirCluster

/-- The scan of `MarkEntryDeleted`; long-name entries are not skipped here. -/
def markEntryDeletedLoop (d : Disk) (name83 : Name) : Nat → Nat → Option (Disk × Bool)
  | 0, _ => none
  | fuel + 1, cluster =>
    if cluster < endOfChain then
      let buffer := v.readCluster d cluster
      match scan (fun e => e.first == 0xE5) name83 (entriesOf (v.bufSize / 32) buffer) 0 with
      | .stop => some (d, false)
      | .hit i =>
        some (v.writeCluster d cluster (putEntry buffer i (entryAt buffer i).deleted), true)
      | .next => markEntryDeletedLoop d name83 fuel (v.nextCluster d cluster)
    else some (d, false)

def markEntryDeleted (d : Disk) (dirCluster : Nat) (name83 : Name) : Option (Disk × Bool) :=
  v.markEntryDeletedLoop d name83 loopFuel dirCluster

/-- `WriteFile` from the point where the old chain has been freed. -/
def storeFile (d : Disk) (dirCluster : Nat) (name83 : Name) (existed : Bool) (data : List UInt8) :
    Option (Disk × Bool) :=
  let first := v.allocCluster d
  if first = 0 then some (d, false)
  else do
    let (d, stored) ← v.writeClusterChain (v.setFATEntry d first 0x0FFFFFFF) first data
    if !stored then return (d, false)
    else
      let d ← if existed then (·.1) <$> v.markEntryDeleted d dirCluster name83 else some d
      v.addDirEntry d dirCluster (buildDirEntry name83 0x20 first data.length)

/-- `WriteFile` behind `ResolveParentDir`. -/
def writeFileIn (d : Disk) (dirCluster : Nat) (name : List UInt8) (data : List UInt8) :
    Option (Disk × Bool) := do
  match ← v.findEntry d dirCluster name with
  | none => v.storeFile d dirCluster (toShortName name) false data
  | some existing =>
    if existing.isDirectory then return (d, false)
    else
      let d ← v.freeChainLoop loopFuel d existing.startCluster
      v.storeFile d dirCluster (toShortName name) true data

/-- `WriteFile(path, buffer, size)`; `data` is the `size` bytes at `buffer`. -/
def writeFile (d : Disk) (path : CString) (data : List UInt8) : Option (Disk × Bool) := do
  match ← v.resolveParentDir d path with
  | none => return (d, false)
  | some (dirCluster, name) => v.writeFileIn d dirCluster name data

def createFile (d : Disk) (path : CString) : Option (Disk × Bool) := v.writeFile d path []

def deleteFile (d : Disk) (path : CString) : Option (Disk × Bool) := do
  match ← v.resolveParentDir d path with
  | none => return (d, false)
  | some (dirCluster, name) =>
    match ← v.findEntry d dirCluster name with
    | none => return (d, false)
    | some entry =>
      if entry.isDirectory then return (d, false)
      else
        let d ← v.freeChainLoop loopFuel d entry.startCluster
        v.markEntryDeleted d dirCluster (toShortName name)

/-- The first cluster of a new directory: `.` and `..`, then zeros. -/
def newDirectory (newCluster dirCluster : Nat) : Storage :=
  let parentForDotDot := if dirCluster = v.bpb.rootCluster then 0 else dirCluster
  putEntry (putEntry (fun _ => 0) 0 (buildDirEntry dotName 0x10 newCluster 0)) 1
    (buildDirEntry dotDotName 0x10 parentForDotDot 0)

/-- `MakeDir`; it does not look for an entry of the same name. -/
def makeDir (d : Disk) (path : CString) : Option (Disk × Bool) := do
  match ← v.resolveParentDir d path with
  | none => return (d, false)
  | some (dirCluster, name) =>
    let newCluster := v.allocCluster d
    if newCluster = 0 then return (d, false)
    else
      let d := v.setFATEntry d newCluster 0x0FFFFFFF
      let d := v.writeCluster d newCluster (v.newDirectory newCluster dirCluster)
      v.addDirEntry d dirCluster (buildDirEntry (toShortName name) 0x10 newCluster 0)

end Volume

end LaylaOS.Fs
