/-
**Names, paths and contents.**

What users of a volume see: `lookup` finds the entry of a name in a directory, paths are resolved
component by component, and an entry has `contents`. On a sound volume the driver computes just
these.
-/

import LaylaOS.Fs.Update

namespace LaylaOS.Fs

open LaylaOS.Lib

/-! ### Components -/

theorem skipSlash_suffix (path : List UInt8) : skipSlash path <:+ path := by
  unfold skipSlash
  split
  · exact List.suffix_cons _ _
  · exact List.suffix_rfl

theorem skipSlashes_suffix (path : List UInt8) : skipSlashes path <:+ path := List.dropWhile_suffix _

theorem skip_component_shorter {skip : List UInt8 → List UInt8} (suffix : ∀ path, skip path <:+ path)
    (takes : ∀ rest, skip (47 :: rest) <:+ rest) {fuel : Nat} {path : List UInt8} (some : path ≠ [])
    (enough : path.length ≤ fuel + 1) : (skip (path.drop (component path).length)).length ≤ fuel := by
  obtain ⟨byte, rest, rfl⟩ := List.exists_cons_of_ne_nil some
  rw [List.length_cons] at enough
  by_cases slash : byte = 47
  · have none : component (byte :: rest) = [] := by simp [component, slash]
    rw [none, slash]
    exact (takes rest).length_le.trans (Nat.le_of_succ_le_succ enough)
  · have positive : 0 < (component (byte :: rest)).length := by simp [component, slash]
    have shorter := (suffix ((byte :: rest).drop (component (byte :: rest)).length)).length_le
    rw [List.length_drop, List.length_cons] at shorter
    omega

theorem skipSlash_slash (rest : List UInt8) : skipSlash (47 :: rest) <:+ rest := List.suffix_rfl

theorem skipSlashes_slash (rest : List UInt8) : skipSlashes (47 :: rest) <:+ rest := skipSlashes_suffix rest

theorem cutPath_subset {skip : List UInt8 → List UInt8} (suffix : ∀ path, skip path <:+ path)
    {fuel : Nat} {path name : List UInt8} (member : name ∈ cutPath skip fuel path) :
    name ⊆ path := by
  induction fuel generalizing path with
  | zero => exact absurd member List.not_mem_nil
  | succ fuel ih =>
    rw [cutPath] at member
    by_cases empty : path = []
    · rw [if_pos empty] at member
      exact absurd member List.not_mem_nil
    · rw [if_neg empty] at member
      rcases List.mem_cons.mp member with rfl | later
      · exact fun byte inside =>
          (List.takeWhile_sublist _).subset ((List.take_sublist _ _).subset inside)
      · exact List.Subset.trans (ih later) (List.Subset.trans (suffix _).subset (List.drop_subset _ _))

theorem parentComponents_terminated (path : CString) : ∀ name ∈ parentComponents path, 0 ∉ name :=
  fun _ member zero => path.property ((skipSlash_suffix _).subset (cutPath_subset skipSlash_suffix member zero))

theorem pathComponents_terminated (path : CString) : ∀ name ∈ pathComponents path, 0 ∉ name :=
  fun _ member zero => path.property
    ((skipSlashes_suffix _).subset (cutPath_subset skipSlashes_suffix member zero))

theorem skip_eq {path : List UInt8} (noEmpty : ¬ [47, 47] <:+: path) : skipSlash path = skipSlashes path := by
  match path with
  | [] => rfl
  | [c] => by_cases slash : c = 47 <;> simp [skipSlash, skipSlashes, slash]
  | c :: c' :: rest =>
    by_cases slash : c = 47
    · have other : c' ≠ 47 := fun same =>
        noEmpty ⟨[], rest, by rw [slash, same]; rfl⟩
      simp [skipSlash, skipSlashes, slash, other]
    · simp [skipSlash, skipSlashes, slash]

theorem cutPath_eq {fuel : Nat} {path : List UInt8} (noEmpty : ¬ [47, 47] <:+: path) :
    cutPath skipSlash fuel path = cutPath skipSlashes fuel path := by
  induction fuel generalizing path with
  | zero => rfl
  | succ fuel ih =>
    have rest : ¬ [47, 47] <:+: path.drop (component path).length := fun inside =>
      noEmpty (inside.trans (List.drop_suffix _ _).isInfix)
    rw [cutPath, cutPath, skip_eq rest]
    rw [ih fun inside => rest (inside.trans (skipSlashes_suffix _).isInfix)]

/-- **Both resolvers see the same components** of a path without `//`. -/
theorem components_eq {path : CString} (noEmpty : ¬ [47, 47] <:+: path.val) :
    parentComponents path = pathComponents path := by
  unfold parentComponents pathComponents
  rw [skip_eq noEmpty]
  exact cutPath_eq fun inside => noEmpty (inside.trans (skipSlashes_suffix _).isInfix)

namespace Image

variable {I I' : Image}

/-- The entry of the name `name83` in the directory `D`. -/
def lookup (I : Image) (D : Nat) (name83 : Name) : Option DirEntry :=
  (I.slots D).find? (Matches name83)

/-- The directory and the last component that a list of components leads to. -/
def resolveParent (I : Image) : Nat → List (List UInt8) → Option (Nat × List UInt8)
  | _, [] => none
  | D, [last] => some (D, last)
  | D, name :: next :: rest =>
    match I.lookup D (toShortName name) with
    | none => none
    | some e => if e.isDirectory then resolveParent I e.startCluster (next :: rest) else none

/-- The entry that a list of components leads to. -/
def resolve (I : Image) : Nat → List (List UInt8) → Option DirEntry
  | _, [] => none
  | D, name :: rest =>
    match I.lookup D (toShortName name) with
    | none => none
    | some e =>
      if rest = [] then some e
      else if e.isDirectory then resolve I e.startCluster rest
      else none

/-- The bytes of a file. -/
def contents (I : Image) (e : DirEntry) : List UInt8 :=
  ((I.chain e.startCluster).flatMap I.bytesOf).take e.size

/-- The size and the bytes of the file that a list of components leads to. -/
def fileAt (I : Image) (names : List (List UInt8)) : Option (Nat × List UInt8) :=
  (I.resolve I.root names).bind fun e =>
    if e.isDirectory then none else some (e.size, I.contents e)

/-- `ReadFile` can follow the chain of the entry: it has one, or the entry is empty with start
cluster 0 and FAT entry 0 is an end mark. -/
def Readable (I : Image) (e : DirEntry) : Prop :=
  (InTable e.startCluster ∧ I.Strict e.startCluster) ∨
    (e.startCluster = 0 ∧ endOfChain ≤ I.fat 0 ∧ e.size = 0)

theorem lookup_mem {D : Nat} {name83 : Name} {e : DirEntry} (found : I.lookup D name83 = some e) :
    e ∈ I.slots D ∧ e.isDead = false ∧ e.name = name83 := by
  have matched := List.find?_some found
  exact ⟨List.mem_of_find?_eq_some found, Matches.live matched⟩

theorem lookup_named {D : Nat} {name : List UInt8} {e : DirEntry} (terminated : 0 ∉ name)
    (found : I.lookup D (toShortName name) = some e) : e.Named := by
  obtain ⟨-, live, same⟩ := lookup_mem found
  have noDot := (toShortName_first terminated).2
  rw [← same] at noDot
  exact ⟨live, fun dot => noDot (by rw [dot]; rfl), fun dots => noDot (by rw [dots]; rfl)⟩

theorem lookup_child {D : Nat} {name : List UInt8} {e : DirEntry} (dir : I.IsDir D)
    (terminated : 0 ∉ name) (found : I.lookup D (toShortName name) = some e)
    (directory : e.isDirectory = true) : I.IsDir e.startCluster :=
  .child dir (lookup_mem found).1 (lookup_named terminated found) directory

theorem resolveParent_isDir {D D' : Nat} {names : List (List UInt8)} {last : List UInt8}
    (dir : I.IsDir D) (terminated : ∀ name ∈ names, 0 ∉ name)
    (found : I.resolveParent D names = some (D', last)) :
    I.IsDir D' ∧ names.getLast? = some last := by
  induction names generalizing D with
  | nil => cases found
  | cons name rest ih =>
    cases rest with
    | nil =>
      cases found
      exact ⟨dir, rfl⟩
    | cons next rest =>
      rw [resolveParent] at found
      cases entry : I.lookup D (toShortName name) with
      | none =>
        rw [entry] at found
        cases found
      | some e =>
        rw [entry] at found
        by_cases directory : e.isDirectory = true
        · simp only [directory, if_true] at found
          have child := lookup_child dir (terminated name List.mem_cons_self) entry directory
          obtain ⟨dir', last'⟩ := ih child (fun n member => terminated n (List.mem_cons_of_mem _ member)) found
          exact ⟨dir', by rw [List.getLast?_cons_cons]; exact last'⟩
        · simp only [directory] at found
          cases found

end Image

namespace Volume

open Image

variable {v : Volume} {d : Disk} {I : Image} (g : v.Geometry) (r : v.Represents d I) (sound : I.Sound)
include g r sound

theorem segment {D : Nat} (dir : I.IsDir D) : I.Segment D (I.chain D) ∧ (I.chain D).length < loopFuel := by
  obtain ⟨inTable, strict⟩ := sound.directory D dir
  have length := length_le_of_nodup strict.walk.nodup fun x member => (strict.linked x member).1
  have limit := r.limit_lt g
  exact ⟨⟨strict.walk, strict.linked, inTable.1⟩, by unfold loopFuel; omega⟩

theorem findEntry_spec {D : Nat} (dir : I.IsDir D) (name : List UInt8) :
    v.findEntry d D name = some (I.lookup D (toShortName name)) := by
  obtain ⟨segment, enough⟩ := segment g r sound dir
  exact findEntryLoop_spec g r _ segment (sound.tidy D dir) enough

theorem resolveParentLoop_spec {D : Nat} (dir : I.IsDir D) {names : List (List UInt8)}
    (terminated : ∀ name ∈ names, 0 ∉ name) :
    v.resolveParentLoop d D names = some (I.resolveParent D names) := by
  induction names generalizing D with
  | nil => rfl
  | cons name rest ih =>
    cases rest with
    | nil => rfl
    | cons next rest =>
      rw [resolveParentLoop, findEntry_spec g r sound dir, resolveParent]
      cases entry : I.lookup D (toShortName name) with
      | none => rfl
      | some e =>
        by_cases directory : e.isDirectory = true
        · have child := lookup_child dir (terminated name List.mem_cons_self) entry directory
          simp only [directory, if_true, Option.bind_eq_bind, Option.bind_some]
          exact ih child fun n member => terminated n (List.mem_cons_of_mem _ member)
        · simp [directory]

theorem resolvePathLoop_spec {D : Nat} (dir : I.IsDir D) {names : List (List UInt8)}
    (terminated : ∀ name ∈ names, 0 ∉ name) :
    v.resolvePathLoop d D names = some (I.resolve D names) := by
  induction names generalizing D with
  | nil => rfl
  | cons name rest ih =>
    rw [resolvePathLoop, findEntry_spec g r sound dir, Image.resolve]
    cases entry : I.lookup D (toShortName name) with
    | none => rfl
    | some e =>
      by_cases last : rest = []
      · simp [last]
      · by_cases directory : e.isDirectory = true
        · have child := lookup_child dir (terminated name List.mem_cons_self) entry directory
          simp only [last, directory, if_true, if_false, Option.bind_eq_bind, Option.bind_some]
          exact ih child fun n member => terminated n (List.mem_cons_of_mem _ member)
        · simp [last, directory]

theorem resolveParentDir_spec (path : CString) :
    v.resolveParentDir d path = some (I.resolveParent I.root (parentComponents path)) := by
  rw [resolveParentDir, r.root_eq]
  exact resolveParentLoop_spec g r sound .root (parentComponents_terminated path)

theorem resolvePath_spec (path : CString) :
    v.resolvePath d path = some (if pathComponents path = [] then some .root
      else (I.resolve I.root (pathComponents path)).map .entry) := by
  rw [resolvePath, r.root_eq, resolvePathLoop_spec g r sound .root (pathComponents_terminated path)]
  split <;> rfl

omit g r sound in
theorem clusterBytes_length (buffer : Storage) : (v.clusterBytes buffer).length = v.clusterSize := by
  rw [clusterBytes, List.length_map, List.length_range]

omit g r sound in
theorem readChainLoop_succ (fuel : Nat) {c : Nat} (low : c < endOfChain) : v.readChainLoop d (fuel + 1) c =
      (v.readChainLoop d fuel (v.nextCluster d c)).map (v.clusterBytes (v.readCluster d c) ++ ·) := by
  rw [readChainLoop, if_pos low]
  cases v.readChainLoop d fuel (v.nextCluster d c) <;> rfl

omit g sound in
theorem readChainLoop_spec {c fuel : Nat} {l : List Nat} (segment : I.Segment c l)
    (enough : l.length < fuel) : v.readChainLoop d fuel c = some (l.flatMap I.bytesOf) := by
  induction l generalizing c fuel with
  | nil =>
    obtain ⟨fuel, rfl⟩ : ∃ more, fuel = more + 1 := ⟨fuel - 1, by omega⟩
    rw [readChainLoop, if_neg segment.ends]
    rfl
  | cons x l ih =>
    rw [List.length_cons] at enough
    obtain ⟨fuel, rfl⟩ : ∃ more, fuel = more + 1 := ⟨fuel - 1, by omega⟩
    obtain ⟨rfl, inside, high, onward⟩ := segment.uncons
    rw [readChainLoop, if_pos inside, r.nextCluster_eq high,
      ih onward (show l.length < fuel by omega), r.readCluster_eq segment.low high,
      clusterBytes, r.clusterSize_eq]
    rfl

omit g sound in
theorem readChainLoop_zero (mark : endOfChain ≤ I.fat 0) (fuel : Nat) :
    ∃ bytes, v.readChainLoop d (fuel + 2) 0 = some bytes ∧ bytes.length = I.clusterSize := by
  have positive : 0 < I.limit := by
    by_contra none
    have zero : I.fat 0 = 0 := by
      rw [← r.image]
      exact if_neg (by rw [r.limit_eq]; exact none)
    rw [zero] at mark
    exact absurd mark (by decide)
  have ends : ¬ v.nextCluster d 0 < endOfChain := by
    rw [r.nextCluster_eq positive]
    exact not_lt.mpr mark
  refine ⟨v.clusterBytes (v.readCluster d 0) ++ [], ?_, ?_⟩
  · rw [readChainLoop_succ _ (by decide), readChainLoop, if_neg ends]
    rfl
  · rw [List.append_nil, clusterBytes_length, r.clusterSize_eq]

omit sound in
theorem readChain_contents {e : DirEntry} (readable : I.Readable e) :
    ∃ bytes, v.readChainLoop d loopFuel e.startCluster = some bytes ∧ bytes.take e.size = I.contents e := by
  have limit := r.limit_lt g
  rcases readable with ⟨inTable, strict⟩ | ⟨start, mark, empty⟩
  · have length := length_le_of_nodup strict.walk.nodup fun x member => (strict.linked x member).1
    exact ⟨_, readChainLoop_spec r ⟨strict.walk, strict.linked, inTable.1⟩ (by unfold loopFuel; omega), rfl⟩
  · obtain ⟨bytes, ran, -⟩ := readChainLoop_zero r mark (2 ^ 32 - 2)
    rw [start]
    exact ⟨bytes, ran, by simp [contents, empty]⟩

end Volume

/-- What `ReadFile` tells its caller: the size, and the first `*size` bytes of the buffer. -/
def Volume.readBack (v : Volume) (d : Disk) (path : CString) :
    Option (Option (Nat × List UInt8)) :=
  (v.readFile d path).map (·.map fun result => (result.1, result.2.take result.1))

/-- **`ReadFile` returns the contents of the entry** that the path leads to. -/
theorem Volume.readBack_spec {v : Volume} {d : Disk} {I : Image} (g : v.Geometry)
    (r : v.Represents d I) (sound : I.Sound) (path : CString)
    (readable : ∀ e, I.resolve I.root (pathComponents path) = some e → e.isDirectory = false → I.Readable e) :
    v.readBack d path = some (I.fileAt (pathComponents path)) := by
  rw [readBack, readFile, resolvePath_spec g r sound, Image.fileAt]
  by_cases root : pathComponents path = []
  · rw [if_pos root, root]
    rfl
  · rw [if_neg root]
    cases found : I.resolve I.root (pathComponents path) with
    | none => rfl
    | some e =>
      cases directory : e.isDirectory with
      | true => simp [directory]
      | false =>
        obtain ⟨bytes, ran, same⟩ := readChain_contents g r (readable e found directory)
        simp [directory, ran, same]

end LaylaOS.Fs
