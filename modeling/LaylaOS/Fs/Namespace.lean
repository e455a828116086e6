/-
**The driver is a file tree.**

What the users of a volume see of it: for every path of 8.3 names a directory, a file with its bytes, or
nothing. On a well-formed volume that has room, and as long as no directory is made under a name that is
taken, every run of calls does to this tree what a file system should do, with the results it should have,
and the volume stays well-formed.

* `calls_refine_tree` — a run of calls, and what `ReadFile` and `IsDirectory` say afterwards.
-/

import LaylaOS.Lib.FileTree
import LaylaOS.Fs.Allocation
import LaylaOS.Fs.Atomicity
import LaylaOS.Fs.Holding

namespace LaylaOS.Fs

open LaylaOS.Lib

/-! ### Volumes as linked directories -/

/-- The 8.3 names of the components. -/
def keys (names : List (List UInt8)) : List Name := names.map toShortName

theorem toShortName_plain {name : List UInt8} (terminated : 0 ∉ name) :
    ¬ (toShortName name = dotName ∨ toShortName name = dotDotName) := by
  have noDot := (toShortName_first terminated).2
  rintro (dot | dots)
  · exact noDot (by rw [dot]; rfl)
  · exact noDot (by rw [dots]; rfl)

namespace Image

variable {I I' J : Image} {D i : Nat} {name : List UInt8} {names : List (List UInt8)} {e : DirEntry}

/-- What an entry leads to. -/
def target (I : Image) (e : DirEntry) : Nat ⊕ List UInt8 :=
  if e.isDirectory then .inl e.startCluster else .inr (I.contents e)

theorem target_of_directory (I : Image) (directory : e.isDirectory = true) :
    I.target e = .inl e.startCluster := if_pos directory

theorem target_of_file (I : Image) (file : e.isDirectory = false) : I.target e = .inr (I.contents e) :=
  if_neg (by rw [file]; exact Bool.false_ne_true)

/-- The directories of a volume, without `.` and `..`, which no path component stands for. -/
def directories (I : Image) : Directories Nat Name (List UInt8) where
  root := I.root
  entry D name83 :=
    if name83 = dotName ∨ name83 = dotDotName then none else (I.lookup D name83).map I.target

/-- What the users of the volume see. -/
def tree (I : Image) : FileTree Name (List UInt8) := I.directories.tree

theorem entry_eq (I : Image) (D : Nat) (name83 : Name) : I.directories.entry D name83 =
    if name83 = dotName ∨ name83 = dotDotName then none else (I.lookup D name83).map I.target := rfl

theorem entry_component (I : Image) (D : Nat) (terminated : 0 ∉ name) :
    I.directories.entry D (toShortName name) = (I.lookup D (toShortName name)).map I.target :=
  if_neg (toShortName_plain terminated)

theorem entry_some {name83 : Name} {place : Nat ⊕ List UInt8}
    (found : I.directories.entry D name83 = some place) :
    ∃ e, I.lookup D name83 = some e ∧ e.Named ∧ I.target e = place := by
  have plain : ¬ (name83 = dotName ∨ name83 = dotDotName) := by
    intro dots
    rw [entry_eq, if_pos dots] at found
    cases found
  rw [entry_eq, if_neg plain] at found
  obtain ⟨e, entry, same⟩ := Option.map_eq_some_iff.mp found
  obtain ⟨-, live, named⟩ := lookup_mem entry
  exact ⟨e, entry, ⟨live, fun dot => plain (.inl (named ▸ dot)), fun dots => plain (.inr (named ▸ dots))⟩, same⟩

theorem entry_directory {name83 : Name} {E : Nat} (found : I.directories.entry D name83 = some (.inl E)) :
    ∃ e, I.lookup D name83 = some e ∧ e.Named ∧ e.isDirectory = true ∧ e.startCluster = E := by
  obtain ⟨e, entry, named, same⟩ := entry_some found
  unfold target at same
  split_ifs at same with directory
  cases same
  exact ⟨e, entry, named, directory, rfl⟩

theorem reached_isDir (reached : I.directories.Reached D) : I.IsDir D := by
  obtain ⟨path, found⟩ := reached
  induction path using List.reverseRecOn generalizing D with
  | nil =>
    cases found
    exact .root
  | append_singleton path name83 ih =>
    obtain ⟨E, before, entry⟩ := Directories.find_concat_some found
    obtain ⟨e, here, named, directory, rfl⟩ := entry_directory entry
    exact .child (ih before) (lookup_mem here).1 named directory

theorem Sound.linked (sound : I.Sound) : I.directories.Linked := by
  have owner : ∀ {D E name83}, I.directories.Reached D → I.directories.entry D name83 = some (.inl E) →
      ∃ j, I.Owns (some (D, j)) E ∧ (∀ e, (I.slots D)[j]? = some e → e.name = name83) ∧ E ∈ I.chain E := by
    intro D E name83 reached entry
    obtain ⟨e, here, named, directory, rfl⟩ := entry_directory entry
    obtain ⟨member, -, same⟩ := lookup_mem here
    obtain ⟨j, slot⟩ := List.mem_iff_getElem?.mp member
    have dir := reached_isDir reached
    obtain ⟨inTable, strict⟩ := sound.directory _ (.child dir member named directory)
    refine ⟨j, .entry dir slot named, fun e' slot' => ?_, strict.walk.start_mem inTable⟩
    rw [slot] at slot'
    cases slot'
    exact same
  refine ⟨fun D name83 reached entry => ?_, fun D D' name83 name83' E reached reached' entry entry' => ?_⟩
  · obtain ⟨j, owns, -, member⟩ := owner reached entry
    cases sound.apart _ _ _ _ _ owns .root member member
  · obtain ⟨j, owns, same, member⟩ := owner reached entry
    obtain ⟨j', owns', same', -⟩ := owner reached' entry'
    cases sound.apart _ _ _ _ _ owns owns' member member
    cases owns with
    | entry _ slot _ => exact ⟨rfl, (same _ slot).symm.trans (same' _ slot)⟩

/-! ### Paths -/

theorem foldlM_step_file (contents : List UInt8) (path : List Name) :
    path.foldlM I.directories.step (.inr contents) ≠ some (.inl D) := by
  cases path with
  | nil => simp
  | cons first path => simp [Directories.step]

theorem resolveParent_concat {dir : List (List UInt8)} {last : List UInt8} {start : Nat}
    (terminated : ∀ n ∈ dir, 0 ∉ n) :
    I.resolveParent start (dir ++ [name]) = some (D, last) ↔
      last = name ∧ (keys dir).foldlM I.directories.step (.inl start) = some (.inl D) := by
  induction dir generalizing start with
  | nil => simp [keys, resolveParent, eq_comm, and_comm]
  | cons first dir ih =>
    have later : ∀ n ∈ dir, 0 ∉ n := fun n member => terminated n (List.mem_cons_of_mem _ member)
    obtain ⟨next, rest, split⟩ := List.exists_cons_of_ne_nil (List.concat_ne_nil name dir)
    have onward : (keys (first :: dir)).foldlM I.directories.step (.inl start) =
        ((I.lookup start (toShortName first)).map I.target).bind fun place =>
          (keys dir).foldlM I.directories.step place := by
      rw [← entry_component I start (terminated first List.mem_cons_self)]
      rfl
    rw [onward, List.cons_append, split, resolveParent]
    cases I.lookup start (toShortName first) with
    | none => simp
    | some e =>
      cases directory : e.isDirectory with
      | false => simp [directory, target, foldlM_step_file]
      | true => simp [directory, target, ← split, ih later]

theorem resolveParent_iff {last : List UInt8} (terminated : ∀ n ∈ names, 0 ∉ n) :
    I.resolveParent I.root names = some (D, last) ↔
      ∃ dir, names = dir ++ [last] ∧ I.directories.find (keys dir) = some (.inl D) := by
  induction names using List.reverseRecOn with
  | nil => simp [resolveParent]
  | append_singleton dir name _ =>
    rw [resolveParent_concat fun n member => terminated n (List.mem_append_left _ member)]
    constructor
    · rintro ⟨rfl, found⟩
      exact ⟨dir, rfl, found⟩
    · rintro ⟨dir', same, found⟩
      obtain ⟨rfl, final⟩ := List.append_inj' same rfl
      cases final
      exact ⟨rfl, found⟩

theorem find_keys (terminated : ∀ n ∈ names, 0 ∉ n) (nonempty : names ≠ []) :
    I.directories.find (keys names) = (I.resolve I.root names).map I.target := by
  induction names using List.reverseRecOn with
  | nil => exact absurd rfl nonempty
  | append_singleton dir name _ =>
    have front : ∀ n ∈ dir, 0 ∉ n := fun n member => terminated n (List.mem_append_left _ member)
    have ended : 0 ∉ name := terminated name (by simp)
    have split : keys (dir ++ [name]) = keys dir ++ [toShortName name] := List.map_append
    rw [resolve_eq, split]
    cases parent : I.resolveParent I.root (dir ++ [name]) with
    | none =>
      rw [Option.bind_none, Option.map_none, Directories.find_concat]
      refine Directories.bind_step_none fun D found => ?_
      rw [(resolveParent_iff terminated).mpr ⟨dir, rfl, found⟩] at parent
      cases parent
    | some place =>
      obtain ⟨D, last⟩ := place
      obtain ⟨dir', same, found⟩ := (resolveParent_iff terminated).mp parent
      obtain ⟨rfl, final⟩ := List.append_inj' same rfl
      cases final
      rw [Directories.find_entry found, entry_component I D ended]
      rfl

/-! ### One slot, one path -/

theorem tree_of_lookups {name83 : Name} {old : Option DirEntry} {O : List Nat} {dir : List Name}
    (sound : I.Sound) (found : I.directories.find dir = some (.inl D)) (shape : I'.toShape = I.toShape)
    (lookups : SameLookups I I' D name83) (files : SameFiles I I' D i)
    (vacates : Vacates I D name83 old i O) (entry : I.lookup D name83 = old)
    (empty : ∀ e, I'.lookup D name83 = some e → e.isDirectory = true →
      ∀ e' ∈ I'.slots e.startCluster, ¬ e'.Named) :
    I'.tree = Function.update I.tree (dir ++ [name83])
      ((I'.directories.entry D name83).map Directories.leaf) := by
  refine sound.linked.tree_update (congrArg Shape.root shape) found ?_ ?_ ?_
  · intro E other reached different
    have dir := reached_isDir reached
    rw [entry_eq, entry_eq, lookups E other dir different]
    split_ifs with dots
    · rfl
    · refine Option.map_congr fun e here => ?_
      obtain ⟨member, live, named⟩ := lookup_mem here
      obtain ⟨j, slot⟩ := List.mem_iff_getElem?.mp member
      have elsewhere : (E, j) ≠ (D, i) := by
        intro same
        cases same
        have rename : other ≠ name83 := fun equal => different (by rw [equal])
        have unmatched := vacates.name_eq rename e slot
        simp [Matches, namesMatch, live, named] at unmatched
      have plain : e.Named := ⟨live, fun dot => dots (.inl (named ▸ dot)), fun dot => dots (.inr (named ▸ dot))⟩
      unfold target
      split_ifs with directory
      · rfl
      · rw [(files E j e dir slot plain (by simpa using directory) elsewhere).1]
  · intro E present
    obtain ⟨e, here, -, directory, -⟩ := entry_directory present
    have none := vacates.subdirectory entry
    rw [subdirectory, here, Option.filter_some, if_pos directory] at none
    cases none
  · intro E present other
    obtain ⟨e, here, -, directory, rfl⟩ := entry_directory present
    rcases inside : I'.directories.entry e.startCluster other with - | place
    · rfl
    · obtain ⟨e', there, named, -⟩ := entry_some inside
      exact absurd named (empty e here directory e' (lookup_mem there).1)

/-- A path whose parent is `D`. -/
structure Under (I : Image) (names : List (List UInt8)) (D : Nat) (name : List UInt8) : Prop where
  terminated : 0 ∉ name
  parent : I.directories.find (keys names).dropLast = some (.inl D)
  path : (keys names).dropLast ++ [toShortName name] = keys names

theorem resolveParent_under (terminated : ∀ n ∈ names, 0 ∉ n)
    (found : I.resolveParent I.root names = some (D, name)) : I.Under names D name := by
  obtain ⟨dir, rfl, parent⟩ := (resolveParent_iff terminated).mp found
  have split : keys (dir ++ [name]) = keys dir ++ [toShortName name] := List.map_append
  have front : (keys (dir ++ [name])).dropLast = keys dir := by rw [split, List.dropLast_concat]
  exact ⟨terminated name (by simp), by rw [front]; exact parent, by rw [front, split]⟩

namespace Under

variable (under : I.Under names D name)
include under

theorem isDirectory : I.tree.isDirectory (keys names).dropLast = true :=
  Directories.isDirectory_iff.mpr ⟨D, under.parent⟩

theorem tree_eq : I.tree (keys names) =
    (I.lookup D (toShortName name)).map fun e => Directories.leaf (I.target e) := by
  rw [← under.path, tree, Directories.tree, Directories.find_entry under.parent,
    entry_component I D under.terminated, Option.map_map]
  rfl

end Under

theorem unresolved_fails (terminated : ∀ n ∈ names, 0 ∉ n) (unresolved : I.resolveParent I.root names = none) :
    (∀ data, I.tree.write (keys names) data = none) ∧ I.tree.delete (keys names) = none ∧
      I.tree.makeDir (keys names) = none := by
  rcases List.eq_nil_or_concat names with rfl | ⟨dir, last, rfl⟩
  · exact ⟨fun _ => rfl, rfl, rfl⟩
  · rw [List.concat_eq_append] at terminated unresolved ⊢
    have nothing : I.tree (keys (dir ++ [last])) = none := by
      rw [tree, Directories.tree, find_keys terminated (by simp), resolve_eq, unresolved]
      rfl
    have nowhere : I.tree.isDirectory (keys (dir ++ [last])).dropLast = false := by
      by_contra present
      rw [Bool.not_eq_false, keys, List.map_append, List.map_singleton, List.dropLast_concat] at present
      obtain ⟨D, found⟩ := Directories.isDirectory_iff.mp present
      rw [(resolveParent_iff terminated).mpr ⟨dir, rfl, found⟩] at unresolved
      cases unresolved
    simp [FileTree.write, FileTree.delete, FileTree.makeDir, nothing, nowhere]

theorem Write.tree_eq {data : List UInt8} (write : Write I names data I' true) (sound : I.Sound)
    (unique : I.UniqueNames) (terminated : ∀ n ∈ names, 0 ∉ n)
    (live : ∀ last ∈ names.getLast?, toShortName last 0 ≠ 0xE5) (size : data.length < 2 ^ 32) :
    I.tree.write (keys names) data = some I'.tree := by
  obtain ⟨D, name, old, i, O, found, last, dir, entry, vacates, written, -⟩ :=
    write.written sound unique terminated size
  have under := resolveParent_under terminated found
  obtain ⟨e, here, file, -, contents, -⟩ := written.stored (live name last)
  have new : I'.directories.entry D (toShortName name) = some (.inr data) := by
    rw [entry_component I' D under.terminated, here, Option.map_some, target_of_file I' file, contents]
  have free : I.tree.isDirectory (keys names) = false := by
    rw [FileTree.isDirectory, under.tree_eq, entry]
    cases vacates with
    | new => rfl
    | old _ _ _ file =>
      rw [Option.map_some, target_of_file I file]
      rfl
  have changed := tree_of_lookups sound under.parent written.shape written.lookups written.files vacates
    entry fun e' there directory => by
      rw [here] at there
      cases there
      rw [file] at directory
      cases directory
  rw [new, under.path] at changed
  rw [FileTree.write, under.isDirectory, free, changed]
  rfl

theorem Under.write_directory (under : I.Under names D name) {e : DirEntry}
    (entry : I.lookup D (toShortName name) = some e) (directory : e.isDirectory = true)
    (data : List UInt8) : I.tree.write (keys names) data = none := by
  have isDirectory : I.tree.isDirectory (keys names) = true := by
    rw [FileTree.isDirectory, under.tree_eq, entry, Option.map_some, target_of_directory I directory]
    rfl
  rw [FileTree.write, isDirectory, Bool.not_true, Bool.and_false, if_neg Bool.false_ne_true]

theorem Delete.tree_eq {b : Bool} (delete : Delete I names I' b) (sound : I.Sound)
    (unique : I.UniqueNames) (terminated : ∀ n ∈ names, 0 ∉ n) :
    I.tree.attempt (I.tree.delete (keys names)) = (I'.tree, b) := by
  cases delete with
  | unresolved found =>
    rw [(unresolved_fails terminated found).2.1]
    rfl
  | missing found entry =>
    have under := resolveParent_under terminated found
    rw [FileTree.delete, under.tree_eq, entry]
    rfl
  | directory found entry directory =>
    have under := resolveParent_under terminated found
    rw [FileTree.delete, FileTree.isDirectory, under.tree_eq, entry, Option.map_some,
      target_of_directory I directory]
    rfl
  | @done D i name e O found entry vacates =>
    have under := resolveParent_under terminated found
    obtain ⟨dir, -⟩ := resolveParent_isDir .root terminated found
    have deleted := vacates.deleted sound unique dir entry
    have file : e.isDirectory = false := by
      cases vacates with
      | old _ _ _ file => exact file
    have changed := tree_of_lookups sound under.parent deleted.shape deleted.lookups deleted.files vacates
      entry fun e' there => by
        rw [deleted.gone] at there
        cases there
    rw [entry_component _ D under.terminated, deleted.gone, under.path] at changed
    rw [FileTree.delete, FileTree.isDirectory, under.tree_eq, entry, Option.map_some,
      target_of_file I file, changed]
    rfl

/-- **What a successful `MakeDir` does to the tree**, if its name is new. -/
theorem Make.tree_eq (make : Make I names I' true) (sound : I.Sound) (unique : I.UniqueNames)
    (terminated : ∀ n ∈ names, 0 ∉ n) (live : ∀ last ∈ names.getLast?, toShortName last 0 ≠ 0xE5)
    (fresh : ∀ target ∈ I.resolveParent I.root names, I.lookup target.1 (toShortName target.2) = none) :
    I.tree.makeDir (keys names) = some I'.tree := by
  cases make with
  | @done D first m parent name added rest J _ found free space staged slots inserted =>
    have under := resolveParent_under terminated found
    obtain ⟨dir, last⟩ := resolveParent_isDir .root terminated found
    obtain ⟨e₀, dead, w⟩ := staged.rewrites
    have soundJ := staged.sound sound
    have absent : I.lookup D (toShortName name) = none := fresh (D, name) found
    have vacates : Vacates I D (toShortName name) none (I.slots D).length [] := .new
    obtain ⟨gone, lookups, -⟩ := w.vacated sound unique dir dead absent vacates
    have named := builtEntry_named under.terminated first 0 0x10 (live name last)
    have sameName := buildDirEntry_name (toShortName name) 0x10 first 0
    have lookups' := inserted.lookups soundJ
    rw [sameName] at lookups'
    have here := inserted.rewrites.lookup_new named.1 fun j _ e' slot => by
      rw [sameName]
      exact lookup_none gone slot
    rw [sameName] at here
    have directory : (buildDirEntry (toShortName name) 0x10 first 0).isDirectory = true := by
      rw [DirEntry.isDirectory, buildDirEntry_attributes]
      rfl
    have both : SameLookups I I' D (toShortName name) := fun D' n dir' other => by
      rw [lookups' D' n ((staged.isDir_iff sound).mpr dir') other, lookups D' n dir' other]
    have changed := tree_of_lookups sound under.parent (inserted.rewrites.shape.trans w.shape) both
      (SameFiles.trans w sound inserted) vacates absent fun e there _ => by
        rw [here] at there
        cases there
        exact (inserted.rewrites.empty named directory).2.2.2
    rw [entry_component _ D under.terminated, here, under.path, Option.map_some,
      target_of_directory I' directory] at changed
    rw [FileTree.makeDir, under.isDirectory, under.tree_eq, absent, changed]
    rfl

/-! ### Good order -/

theorem Rewrites.regular {added : List Nat} (w : Rewrites I I' D i e added) (regular : I.Regular)
    (unique : I'.UniqueNames) (fatZero : I'.fat 0 = I.fat 0) (strict : e.Named → I'.Strict e.startCluster)
    (inTable : e.Named → InTable e.startCluster)
    (sized : e.Named → e.size ≤ (I'.chain e.startCluster).length * I.clusterSize) : I'.Regular := by
  have sound := regular.sound
  have size : I'.clusterSize = I.clusterSize := congrArg Shape.clusterSize w.shape
  -- an entry is the new one or was there before
  have entries : ∀ D' (j : Nat) e', I'.IsDir D' → (I'.slots D')[j]? = some e' → e'.Named →
      (I.IsDir D' ∧ (I.slots D')[j]? = some e' ∧ (D', j) ≠ (D, i)) ∨ e' = e := by
    intro D' j e' dir slot named
    rcases (w.isDir_iff sound).mp dir with old | ⟨new, directory, rfl⟩
    · by_cases here : (D', j) = (D, i)
      · cases here
        exact .inr ((w.here e' named.1).mp slot)
      · exact .inl ⟨old, (w.slot_iff sound old here named.1).mp slot, here⟩
    · exact absurd named ((w.empty new directory).2.2.2 e' (List.mem_of_getElem? slot))
  refine ⟨w.preserves_sound sound, ?_, unique, ?_, ?_, fatZero ▸ regular.mark⟩
  · exact w.allStrict sound (fun o c owns _ => regular.strict o c owns) strict
  · intro D' j e' dir slot named
    rcases entries D' j e' dir slot named with ⟨old, there, -⟩ | rfl
    · exact regular.starts D' j e' old there named
    · exact .inl (inTable named)
  · intro D' j e' dir slot named
    rw [size]
    rcases entries D' j e' dir slot named with ⟨old, there, other⟩ | rfl
    · have chain := (w.chain_eq sound (.entry old there named) fun same => other (Option.some.inj same)).2
      refine (regular.sized D' j e' old there named).trans (Nat.mul_le_mul_right _ ?_)
      rw [chain, List.length_append]
      exact Nat.le_add_right ..
    · exact sized named

theorem Rewrites.regular_dead (w : Rewrites I J D i e []) (regular : I.Regular) (dead : e.isDead = true)
    (unique : J.UniqueNames) (fatZero : J.fat 0 = I.fat 0) : J.Regular :=
  w.regular regular unique fatZero (fun named => absurd named (Named.not_of_dead dead))
    (fun named => absurd named (Named.not_of_dead dead)) fun named => absurd named (Named.not_of_dead dead)

theorem Staged.regular {O L added : List Nat} {first m size : Nat} {attr : UInt8} {name83 : Name}
    (staged : Staged I J D i O first L) (regular : I.Regular) (uniqueJ : J.UniqueNames)
    (inserted : Inserted J I' D m (buildDirEntry name83 attr first size) added) (unique : I'.UniqueNames)
    (starts : first ∈ L) (word : size < 2 ^ 32) (fits : size ≤ L.length * I.clusterSize) : I'.Regular := by
  obtain ⟨e₀, dead, w⟩ := staged.rewrites
  have regularJ := w.regular_dead regular dead uniqueJ staged.fatZero
  have inTable := staged.strict.walk.mem_inside (staged.chain.symm ▸ starts)
  have start : (buildDirEntry name83 attr first size).startCluster = first :=
    buildDirEntry_start _ _ _ _ (lt_trans inTable.2 (by decide))
  refine inserted.rewrites.regular regularJ unique inserted.fatZero inserted.strict (fun _ => ?_)
    fun named => ?_
  · rw [start]
    exact inTable
  rw [inserted.chain named, start, staged.chain, buildDirEntry_size _ _ _ _ word, w.shape]
  exact fits

theorem Write.regular {data : List UInt8} (write : Write I names data I' true) (regular : I.Regular)
    (terminated : ∀ n ∈ names, 0 ∉ n) (size : data.length < 2 ^ 32) : I'.Regular := by
  have unique' := (write.unique regular.sound regular.unique terminated size).2
  cases write with
  | @store D i name old O _ _ found entry vacates store =>
    obtain ⟨dir, -⟩ := resolveParent_isDir .root terminated found
    cases store with
    | @done first m rest added J _ room staged whole word inserted =>
      obtain ⟨e₀, dead, w⟩ := staged.rewrites
      have uniqueJ := (w.vacated regular.sound regular.unique dir dead entry vacates).2.2
      refine staged.regular regular uniqueJ inserted unique' List.mem_cons_self size ?_
      have long := congrArg List.length whole
      rw [List.length_take, flatMap_bytesOf_length, w.shape] at long
      omega

theorem Delete.regular {b : Bool} (delete : Delete I names I' b) (regular : I.Regular)
    (terminated : ∀ n ∈ names, 0 ∉ n) : I'.Regular := by
  cases delete with
  | unresolved _ => exact regular
  | missing _ _ => exact regular
  | directory _ _ _ => exact regular
  | @done D i name e O found entry vacates =>
    obtain ⟨dir, -⟩ := resolveParent_isDir .root terminated found
    have deleted := vacates.deleted regular.sound regular.unique dir entry
    exact (vacates.delete_rewrites regular.sound dir).regular_dead regular e.deleted_isDead deleted.unique
      deleted.fatZero

theorem Make.regular (make : Make I names I' true) (regular : I.Regular) (terminated : ∀ n ∈ names, 0 ∉ n)
    (fresh : ∀ target ∈ I.resolveParent I.root names, I.lookup target.1 (toShortName target.2) = none) :
    I'.Regular := by
  have unique' := (make.unique_iff regular.sound regular.unique terminated).2.mpr
    fun target found _ => fresh target found
  cases make with
  | @done D first m parent name added rest J _ found free space staged slots inserted =>
    obtain ⟨dir, -⟩ := resolveParent_isDir .root terminated found
    obtain ⟨e₀, dead, w⟩ := staged.rewrites
    have vacates : Vacates I D (toShortName name) none (I.slots D).length [] := .new
    have uniqueJ := (w.vacated regular.sound regular.unique dir dead (fresh (D, name) found) vacates).2.2
    exact staged.regular regular uniqueJ inserted unique' List.mem_cons_self (by decide) (Nat.zero_le _)

/-! ### Calls -/

/-- The data fit under the name, or it is that of a directory. -/
def FitsAt (I : Image) (names : List (List UInt8)) (data : List UInt8) : Prop :=
  ∀ target ∈ I.resolveParent I.root names, let old := I.lookup target.1 (toShortName target.2)
    old.any (·.isDirectory) = true ∨
      I.HasRoom target.1 old (old.elim [] fun e => I.chain e.startCluster) data

instance (I : Image) (names : List (List UInt8)) (data : List UInt8) : Decidable (I.FitsAt names data) :=
  inferInstanceAs (Decidable (∀ target ∈ I.resolveParent I.root names, _ ∨ _))

/-- There is room for what the call stores, and the name of a new directory is not taken. -/
def Fits (I : Image) : Call → Prop
  | .writeFile path data _ => I.FitsAt (parentComponents path) data
  | .createFile path => I.FitsAt (parentComponents path) []
  | .deleteFile _ => True
  | .makeDir path => ∀ target ∈ I.resolveParent I.root (parentComponents path),
      I.lookup target.1 (toShortName target.2) = none ∧ I.HasDirectoryRoom target.1

instance (I : Image) : ∀ call, Decidable (I.Fits call)
  | .writeFile path data _ => inferInstanceAs (Decidable (I.FitsAt (parentComponents path) data))
  | .createFile path => inferInstanceAs (Decidable (I.FitsAt (parentComponents path) []))
  | .deleteFile _ => isTrue trivial
  | .makeDir path => inferInstanceAs (Decidable
      (∀ target ∈ I.resolveParent I.root (parentComponents path),
        I.lookup target.1 (toShortName target.2) = none ∧ I.HasDirectoryRoom target.1))

theorem Write.refines {data : List UInt8} {b : Bool} (write : Write I names data I' b) (regular : I.Regular)
    (terminated : ∀ n ∈ names, 0 ∉ n) (live : ∀ last ∈ names.getLast?, toShortName last 0 ≠ 0xE5)
    (size : data.length < 2 ^ 32) (fits : I.FitsAt names data) :
    I'.Regular ∧ I.tree.attempt (I.tree.write (keys names) data) = (I'.tree, b) := by
  cases b with
  | true =>
    rw [write.tree_eq regular.sound regular.unique terminated live size]
    exact ⟨write.regular regular terminated size, rfl⟩
  | false =>
    cases write with
    | unresolved found =>
      rw [(unresolved_fails terminated found).1]
      exact ⟨regular, rfl⟩
    | directory found entry directory =>
      rw [(resolveParent_under terminated found).write_directory entry directory]
      exact ⟨regular, rfl⟩
    | @store D i name old O _ _ found entry vacates store =>
      have room : I.HasRoom D old O data := by
        have here := fits (D, name) found
        simp only [entry] at here
        cases vacates with
        | new => exact here.resolve_left Bool.false_ne_true
        | old _ _ _ file => exact here.resolve_left (by simp [file])
      exact absurd room store.noRoom

theorem Make.refines {b : Bool} (make : Make I names I' b) (regular : I.Regular)
    (terminated : ∀ n ∈ names, 0 ∉ n) (live : ∀ last ∈ names.getLast?, toShortName last 0 ≠ 0xE5)
    (fits : ∀ target ∈ I.resolveParent I.root names,
      I.lookup target.1 (toShortName target.2) = none ∧ I.HasDirectoryRoom target.1) :
    I'.Regular ∧ I.tree.attempt (I.tree.makeDir (keys names)) = (I'.tree, b) := by
  have fresh : ∀ target ∈ I.resolveParent I.root names, I.lookup target.1 (toShortName target.2) = none :=
    fun target found => (fits target found).1
  cases b with
  | true =>
    rw [make.tree_eq regular.sound regular.unique terminated live fresh]
    exact ⟨make.regular regular terminated fresh, rfl⟩
  | false =>
    cases make with
    | unresolved found =>
      rw [(unresolved_fails terminated found).2.2]
      exact ⟨regular, rfl⟩
    | full found full => exact absurd full (fits _ found).2.1
    | blocked found free noSlot _ =>
      rcases (hasDirectoryRoom_iff free).mp (fits _ found).2 with slot | clusters
      · rw [noSlot] at slot
        cases slot
      · exact absurd rfl clusters

end Image

/-- A path without `//` whose last component makes no entry that counts as deleted. -/
def Call.PlainPath (call : Call) : Prop := ¬ [47, 47] <:+: call.path.val ∧ call.LiveName

instance (call : Call) : Decidable call.PlainPath := inferInstanceAs (Decidable (_ ∧ _))

/-- **What a call should do to a file tree**, and the result it should have. -/
def Call.onTree (t : FileTree Name (List UInt8)) : Call → FileTree Name (List UInt8) × Bool
  | .writeFile path data _ => t.attempt (t.write (keys (pathComponents path)) data)
  | .createFile path => t.attempt (t.write (keys (pathComponents path)) [])
  | .deleteFile path => t.attempt (t.delete (keys (pathComponents path)))
  | .makeDir path => t.attempt (t.makeDir (keys (pathComponents path)))

theorem Image.Effect.refines {I I' : Image} {call : Call} {b : Bool} (effect : I.Effect call I' b)
    (regular : I.Regular) (plain : call.PlainPath) (fits : I.Fits call) :
    I'.Regular ∧ call.onTree I.tree = (I'.tree, b) := by
  have terminated := parentComponents_terminated call.path
  have same := (components_eq plain.1).symm
  cases call with
  | writeFile path data word =>
    rw [Call.onTree, show pathComponents path = _ from same]
    exact Write.refines effect regular terminated plain.2 word fits
  | createFile path =>
    rw [Call.onTree, show pathComponents path = _ from same]
    exact Write.refines effect regular terminated plain.2 (by decide) fits
  | deleteFile path =>
    rw [Call.onTree, show pathComponents path = _ from same]
    exact ⟨Delete.regular effect regular terminated,
      Delete.tree_eq effect regular.sound regular.unique terminated⟩
  | makeDir path =>
    rw [Call.onTree, show pathComponents path = _ from same]
    exact Make.refines effect regular terminated plain.2 fits

namespace Volume

open Image

variable {v : Volume} {d : Disk}

theorem WellFormed.readBack_tree (wf : v.WellFormed d) (q : CString) :
    v.readBack d q = some (((v.image d).tree.read (keys (pathComponents q))).map fun data =>
      (data.length, data)) := by
  have terminated := pathComponents_terminated q
  rw [wf.readBack_eq]
  by_cases root : pathComponents q = []
  · rw [root]
    rfl
  · rw [FileTree.read, tree, Directories.tree, find_keys terminated root]
    cases found : (v.image d).resolve (v.image d).root (pathComponents q) with
    | none => rw [fileAt, found]; rfl
    | some e =>
      cases kind : e.isDirectory with
      | true => simp [fileAt, found, kind, target, Directories.leaf]
      | false =>
        have holds := wf.regular.holds terminated found kind
        rw [holds.fileAt]
        simp [target, kind, Directories.leaf]

theorem WellFormed.isDirectory_tree (wf : v.WellFormed d) (q : CString) :
    v.isDirectory d q = some ((v.image d).tree.isDirectory (keys (pathComponents q))) := by
  have terminated := pathComponents_terminated q
  rw [isDirectory, resolvePath_spec wf.geometry wf.represents wf.regular.sound]
  by_cases root : pathComponents q = []
  · rw [if_pos root, root]
    rfl
  · rw [if_neg root, FileTree.isDirectory, tree, Directories.tree, find_keys terminated root]
    cases (v.image d).resolve (v.image d).root (pathComponents q) with
    | none => rfl
    | some e => cases kind : e.isDirectory <;> simp [kind, target, Directories.leaf, Leaf.isDirectory]

/-- **The driver is a file tree.** A run of calls on a well-formed volume, each of them on a plain path and
with room for what it stores, returns the results that it should have, call by call; what it leaves on the
disk is a well-formed volume with the tree that it should leave; and `ReadFile` and `IsDirectory` tell their
callers what the tree says about every path. -/
theorem calls_refine_tree (wf : v.WellFormed d) {calls : List Call}
    (ok : Always v.after (fun d call => call.PlainPath ∧ (v.image d).Fits call) d calls) :
    ∃ d' results, runAll v.call d calls = some (d', results) ∧
      runAll (fun t call => some (call.onTree t)) (v.image d).tree calls = some ((v.image d').tree, results) ∧
      v.WellFormed d' ∧ ∀ q : CString,
        v.readBack d' q = some (((v.image d').tree.read (keys (pathComponents q))).map fun data =>
          (data.length, data)) ∧
        v.isDirectory d' q = some ((v.image d').tree.isDirectory (keys (pathComponents q))) := by
  have step : ∀ d call, v.WellFormed d → call.PlainPath ∧ (v.image d).Fits call →
      v.WellFormed (v.after d call) ∧ ∃ b, v.call d call = some (v.after d call, b) ∧
        some (call.onTree (v.image d).tree) = some ((v.image (v.after d call)).tree, b) := by
    rintro d call wf ⟨plain, fits⟩
    obtain ⟨d', I', b, ran, ⟨synced, rfl⟩, effect⟩ :=
      call_effect wf.geometry wf.represents wf.regular.sound call
    have here : v.after d call = d' := by rw [after, ran]; rfl
    obtain ⟨regular, same⟩ := effect.refines wf.regular plain fits
    rw [here]
    exact ⟨⟨wf.geometry, synced, regular⟩, b, ran, congrArg some same⟩
  obtain ⟨last, results, ran, ran'⟩ := runAll_simulates v.call (fun t call => some (call.onTree t))
    (fun d => (v.image d).tree) step wf ok
  exact ⟨_, results, ran, ran', last, fun q => ⟨last.readBack_tree q, last.isDirectory_tree q⟩⟩

/-- Make the directory `A`, write `A/B`, try to create a file `A`, delete `A/B`. -/
theorem calls_refine_tree_distinct :
    Always sample.after (fun d call => call.PlainPath ∧ (sample.image d).Fits call) blank distinctCalls ∧
    ∃ d' results, runAll sample.call blank distinctCalls = some (d', results) ∧
      runAll (fun t call => some (call.onTree t)) (sample.image blank).tree distinctCalls =
        some ((sample.image d').tree, results) := by
  have ok : Always sample.after (fun d call => call.PlainPath ∧ (sample.image d).Fits call) blank
      distinctCalls := by decide +kernel
  obtain ⟨d', results, ran, ran', -⟩ := calls_refine_tree blank_wellFormed ok
  exact ⟨ok, d', results, ran, ran'⟩

end Volume

end LaylaOS.Fs
