/-
**Paths that both resolvers read the same way.**

Behind a component `ResolveParentDir` skips one slash and `ResolvePath` skips all, so a path with
`//` may lead the two to different places. The entry that `ResolveParentDir` reaches through an
empty component is also reached through `.`, which has the same 8.3 name: whatever
`ResolveParentDir` finds, `ResolvePath` finds through some path (`exists_path`).

* `resolvers_agree_iff` — the paths on which the two agree on every volume.
-/

import LaylaOS.Fs.WellFormed

namespace LaylaOS.Fs

open LaylaOS.Lib

/-- A component that is not empty, of the same 8.3 name. -/
def spelled (name : List UInt8) : List UInt8 := if name = [] then [46] else name

theorem toShortName_spelled (name : List UInt8) : toShortName (spelled name) = toShortName name := by
  unfold spelled
  split
  · rename_i empty
    rw [empty]
    decide
  · rfl

/-- Components with a slash between them. -/
def joined : List (List UInt8) → List UInt8
  | [] => []
  | [name] => name
  | name :: next :: rest => name ++ 47 :: joined (next :: rest)

/-- What a component of a path is, apart from empty ones. -/
def IsComponent (name : List UInt8) : Prop := name ≠ [] ∧ 47 ∉ name ∧ name.length ≤ 12 ∧ 0 ∉ name

theorem IsComponent.component_eq {name rest : List UInt8} (is : IsComponent name)
    (ends : rest = [] ∨ ∃ tail, rest = 47 :: tail) : component (name ++ rest) = name := by
  have front : (name ++ rest).takeWhile (· ≠ 47) = name ++ rest.takeWhile (· ≠ 47) := by
    refine List.takeWhile_append_of_pos fun byte member => ?_
    simpa using fun same : byte = 47 => is.2.1 (same ▸ member)
  have back : rest.takeWhile (· ≠ 47) = [] := by
    rcases ends with rfl | ⟨tail, rfl⟩ <;> simp
  rw [component, front, back, List.append_nil, List.take_of_length_le is.2.2.1]

theorem skipSlashes_joined {names : List (List UInt8)} (are : ∀ n ∈ names, IsComponent n) :
    skipSlashes (joined names) = joined names := by
  have keeps : ∀ name rest : List UInt8, IsComponent name → skipSlashes (name ++ rest) = name ++ rest := by
    intro name rest is
    obtain ⟨byte, tail, rfl⟩ := List.exists_cons_of_ne_nil is.1
    have other : byte ≠ 47 := fun same => is.2.1 (same ▸ List.mem_cons_self)
    simp [skipSlashes, other]
  rcases names with _ | ⟨name, _ | ⟨next, rest⟩⟩
  · rfl
  · have := keeps name [] (are name List.mem_cons_self)
    rwa [List.append_nil] at this
  · exact keeps name _ (are name List.mem_cons_self)

theorem cutPath_joined {names : List (List UInt8)} {fuel : Nat} (are : ∀ n ∈ names, IsComponent n)
    (enough : names.length ≤ fuel) : cutPath skipSlashes fuel (joined names) = names := by
  induction names generalizing fuel with
  | nil => cases fuel <;> rfl
  | cons name rest ih =>
    rw [List.length_cons] at enough
    obtain ⟨fuel, rfl⟩ : ∃ more, fuel = more + 1 := ⟨fuel - 1, by omega⟩
    have is := are name List.mem_cons_self
    have later := fun n member => are n (List.mem_cons_of_mem name member)
    have onward := ih later (show rest.length ≤ fuel by omega)
    cases rest with
    | nil =>
      have whole := is.component_eq (.inl rfl)
      rw [List.append_nil] at whole
      rw [joined, cutPath, if_neg is.1, whole, List.drop_length]
      exact congrArg (name :: ·) onward
    | cons next rest =>
      have whole := is.component_eq (.inr ⟨joined (next :: rest), rfl⟩)
      rw [joined, cutPath, if_neg (by simp), whole, List.drop_left]
      show name :: cutPath skipSlashes fuel (skipSlashes (joined (next :: rest))) = _
      rw [skipSlashes_joined later, onward]

theorem joined_length {names : List (List UInt8)} (are : ∀ n ∈ names, IsComponent n) :
    names.length ≤ (joined names).length := by
  induction names with
  | nil => rfl
  | cons name rest ih =>
    have positive := List.length_pos_of_ne_nil (are name List.mem_cons_self).1
    have onward := ih fun n member => are n (List.mem_cons_of_mem name member)
    cases rest with
    | nil => exact positive
    | cons next rest =>
      rw [joined, List.length_append]
      simp only [List.length_cons] at onward ⊢
      omega

theorem joined_terminated {names : List (List UInt8)} (are : ∀ n ∈ names, IsComponent n) :
    0 ∉ joined names := by
  induction names with
  | nil => exact List.not_mem_nil
  | cons name rest ih =>
    have ended := (are name List.mem_cons_self).2.2.2
    have onward := ih fun n member => are n (List.mem_cons_of_mem name member)
    cases rest with
    | nil => exact ended
    | cons next rest =>
      rw [joined, List.mem_append, List.mem_cons]
      rintro (inside | slash | later)
      · exact ended inside
      · exact absurd slash (by decide)
      · exact onward later

theorem cutPath_component {skip : List UInt8 → List UInt8} {fuel : Nat} {path name : List UInt8}
    (member : name ∈ cutPath skip fuel path) : ∃ rest, name = component rest := by
  induction fuel generalizing path with
  | zero => exact absurd member List.not_mem_nil
  | succ fuel ih =>
    rw [cutPath] at member
    split at member
    · exact absurd member List.not_mem_nil
    · rcases List.mem_cons.mp member with here | later
      · exact ⟨path, here⟩
      · exact ih later

theorem isComponent_spelled {path : CString} {name : List UInt8}
    (member : name ∈ parentComponents path) : IsComponent (spelled name) := by
  obtain ⟨rest, rfl⟩ := cutPath_component member
  have ended := parentComponents_terminated path _ member
  unfold spelled
  split
  · exact ⟨by simp, by decide, by decide, by decide⟩
  · rename_i some
    refine ⟨some, fun slash => ?_, List.length_take_le _ _, ended⟩
    have := List.mem_takeWhile_imp ((List.take_sublist _ _).subset slash)
    simp at this

/-- **Some path leads `ResolvePath`** where `ResolveParentDir` was led. -/
theorem exists_path (path : CString) :
    ∃ q : CString, pathComponents q = (parentComponents path).map spelled := by
  have are : ∀ n ∈ (parentComponents path).map spelled, IsComponent n := by
    intro n member
    obtain ⟨name, inside, rfl⟩ := List.mem_map.mp member
    exact isComponent_spelled inside
  refine ⟨⟨joined _, joined_terminated are⟩, ?_⟩
  rw [pathComponents, skipSlashes_joined are]
  exact cutPath_joined are (joined_length are)

theorem Image.resolve_spelled (I : Image) (D : Nat) (names : List (List UInt8)) :
    I.resolve D (names.map spelled) = I.resolve D names := by
  induction names generalizing D with
  | nil => rfl
  | cons name rest ih =>
    rw [List.map_cons, resolve, resolve, toShortName_spelled]
    simp only [List.map_eq_nil_iff, ih]

/-! ### Empty components -/

theorem skipSlash_double {path : List UInt8} (double : [47, 47] <:+: path) :
    [47, 47] <:+: skipSlash path ∨ (skipSlash path).head? = some 47 := by
  unfold skipSlash
  split
  · rename_i rest
    rcases List.infix_cons_iff.mp double with front | later
    · obtain ⟨-, ⟨tail, same⟩⟩ := List.cons_prefix_cons.mp front
      exact .inr (by rw [← same]; rfl)
    · exact .inl later
  · exact .inl double

theorem drop_component_double {path : List UInt8} (double : [47, 47] <:+: path) :
    [47, 47] <:+: path.drop (component path).length := by
  have noSlash : ∀ byte ∈ component path, byte ≠ 47 := fun byte member => by
    simpa using List.mem_takeWhile_imp ((List.take_sublist _ _).subset member)
  have split : path = component path ++ path.drop (component path).length := by
    have front : component path <+: path := (List.take_prefix _ _).trans (List.takeWhile_prefix _)
    exact (List.prefix_iff_eq_append.mp front).symm
  generalize component path = name at noSlash split ⊢
  generalize path.drop name.length = rest at split ⊢
  rw [split] at double
  clear split
  induction name with
  | nil => exact double
  | cons byte name ih =>
    refine ih (fun b member => noSlash b (List.mem_cons_of_mem _ member)) ?_
    rcases List.infix_cons_iff.mp double with front | later
    · have same := (List.cons_prefix_cons.mp front).1
      exact absurd same.symm (noSlash byte List.mem_cons_self)
    · exact later

theorem cutPath_empty {fuel : Nat} {path : List UInt8} (enough : path.length ≤ fuel)
    (double : [47, 47] <:+: path ∨ path.head? = some 47) : [] ∈ cutPath skipSlash fuel path := by
  induction fuel generalizing path with
  | zero =>
    rw [List.length_eq_zero_iff.mp (Nat.le_zero.mp enough)] at double
    exact absurd double (by decide)
  | succ fuel ih =>
    have some : path ≠ [] := by
      rintro rfl
      exact absurd double (by decide)
    rw [cutPath, if_neg some]
    obtain ⟨byte, rest, rfl⟩ := List.exists_cons_of_ne_nil some
    by_cases slash : byte = 47
    · have empty : component (byte :: rest) = [] := by simp [component, slash]
      rw [empty]
      exact List.mem_cons_self
    · have inside : [47, 47] <:+: byte :: rest := by
        rcases double with inside | front
        · exact inside
        · exact absurd (Option.some.inj front) slash
      refine List.mem_cons_of_mem _ (ih ?_ (skipSlash_double (drop_component_double inside)))
      exact skip_component_shorter skipSlash_suffix skipSlash_slash some enough

theorem empty_mem_parentComponents {path : CString} (double : [47, 47] <:+: path.val) :
    [] ∈ parentComponents path :=
  cutPath_empty (skipSlash_suffix _).length_le (skipSlash_double double)

/-! ### Components that are not empty -/

theorem cutPath_more {skip : List UInt8 → List UInt8} (suffix : ∀ path, skip path <:+ path)
    (takes : ∀ rest, skip (47 :: rest) <:+ rest) {fuel : Nat} {path : List UInt8}
    (enough : path.length ≤ fuel) : cutPath skip (fuel + 1) path = cutPath skip fuel path := by
  induction fuel generalizing path with
  | zero =>
    rw [List.length_eq_zero_iff.mp (Nat.le_zero.mp enough)]
    rfl
  | succ fuel ih =>
    rw [cutPath]
    nth_rewrite 2 [cutPath]
    split_ifs with empty
    · rfl
    · exact congrArg _ (ih (skip_component_shorter suffix takes empty enough))

theorem skipSlashes_skipSlash (path : List UInt8) : skipSlashes (skipSlash path) = skipSlashes path := by
  unfold skipSlash
  split <;> rfl

theorem cutPath_filter {fuel : Nat} {path : List UInt8} (enough : path.length ≤ fuel) :
    cutPath skipSlashes fuel (skipSlashes path) = (cutPath skipSlash fuel path).filter (· ≠ []) := by
  induction fuel generalizing path with
  | zero =>
    rw [List.length_eq_zero_iff.mp (Nat.le_zero.mp enough)]
    rfl
  | succ fuel ih =>
    rcases path with _ | ⟨byte, rest⟩
    · rfl
    have shorter : rest.length ≤ fuel := Nat.le_of_succ_le_succ enough
    by_cases slash : byte = 47
    · -- one slash more, which `ResolveParentDir` takes for an empty component
      have empty : component (byte :: rest) = [] := by simp [component, slash]
      subst slash
      show cutPath skipSlashes (fuel + 1) (skipSlashes rest) = _
      nth_rewrite 2 [cutPath]
      rw [if_neg (List.cons_ne_nil _ _), empty, List.filter_cons_of_neg (by simp)]
      rw [cutPath_more skipSlashes_suffix skipSlashes_slash ((skipSlashes_suffix rest).length_le.trans shorter)]
      exact ih shorter
    · have some : component (byte :: rest) ≠ [] := by simp [component, slash]
      have behind := skip_component_shorter skipSlash_suffix skipSlash_slash (List.cons_ne_nil byte rest) enough
      have begins : skipSlashes (byte :: rest) = byte :: rest := by simp [skipSlashes, slash]
      rw [begins, cutPath, cutPath, if_neg (List.cons_ne_nil _ _), if_neg (List.cons_ne_nil _ _),
        List.filter_cons_of_pos (by simpa using some), ← ih behind, skipSlashes_skipSlash]

theorem pathComponents_filter (path : CString) :
    pathComponents path = (parentComponents path).filter (· ≠ []) := by
  rw [pathComponents, ← skipSlashes_skipSlash]
  exact cutPath_filter (skipSlash_suffix _).length_le

theorem cutPath_length (skip : List UInt8 → List UInt8) (fuel : Nat) (path : List UInt8) :
    (cutPath skip fuel path).length ≤ fuel := by
  induction fuel generalizing path with
  | zero => exact le_rfl
  | succ fuel ih =>
    rw [cutPath]
    split
    · exact Nat.zero_le _
    · exact Nat.succ_le_succ (ih _)

/-! ### Names that no directory holds -/

theorem upper_eq_deleted {c : UInt8} (same : upper c = 0xE5) : c = 0xE5 := by
  unfold upper at same
  split at same
  · rename_i letter
    have low : 97 ≤ c.toNat := letter.1
    have down : (c - 32).toNat = c.toNat - 32 :=
      UInt8.toNat_sub_of_le _ _ (UInt8.le_iff_toNat_le.mpr (le_trans (by decide) low))
    have high : c.toNat ≤ 122 := letter.2
    rw [same] at down
    have : (0xE5 : UInt8).toNat = 229 := rfl
    omega
  · exact same

theorem toShortName_deleted (name : List UInt8) : toShortName name 0 = 0xE5 ↔ name.head? = some 0xE5 := by
  unfold toShortName
  rw [if_pos (by decide)]
  cases name with
  | nil => decide
  | cons c rest =>
    by_cases dot : c = 46
    · simp [shortBase, dot]
    · have first : ((shortBase (c :: rest)).map upper).getD 0 32 = upper c := by
        simp [shortBase, dot]
      show ((shortBase (c :: rest)).map upper).getD 0 32 = 0xE5 ↔ _
      rw [first, List.head?_cons, Option.some.injEq]
      exact ⟨upper_eq_deleted, fun same => by rw [same]; decide⟩

/-! ### Agreement -/

namespace Volume

variable {v : Volume} {d : Disk} {path : CString}

/-- Where `ResolveParentDir` succeeds, `FindEntry` finds there what `ResolvePath` finds, and
`ResolveParentDir` succeeds where `ResolvePath` finds an entry. -/
def ResolversAgree (v : Volume) (d : Disk) (path : CString) : Prop :=
  (∀ dirCluster name, v.resolveParentDir d path = some (some (dirCluster, name)) →
    ∀ e, v.findEntry d dirCluster name = some (some e) ↔
      v.resolvePath d path = some (some (.entry e))) ∧
  ∀ e, v.resolvePath d path = some (some (.entry e)) →
    ∃ parent, v.resolveParentDir d path = some (some parent)

theorem resolvePathLoop_eq_some_iff {dirCluster : Nat} {names : List (List UInt8)} {e : DirEntry} :
    v.resolvePathLoop d dirCluster names = some (some e) ↔
      ∃ D last, v.resolveParentLoop d dirCluster names = some (some (D, last)) ∧
        v.findEntry d D last = some (some e) := by
  induction names generalizing dirCluster with
  | nil => simp [resolvePathLoop, resolveParentLoop]
  | cons name rest ih =>
    cases rest with
    | nil =>
      rw [resolvePathLoop]
      constructor
      · intro found
        refine ⟨dirCluster, name, rfl, ?_⟩
        obtain ⟨entry, here, same⟩ := Option.bind_eq_some_iff.mp found
        cases entry with
        | none => cases same
        | some entry =>
          rw [here]
          exact same
      · rintro ⟨D, last, same, found⟩
        cases same
        rw [found]
        rfl
    | cons next rest =>
      rw [resolvePathLoop, resolveParentLoop]
      cases here : v.findEntry d dirCluster name with
      | none => simp
      | some entry =>
        cases entry with
        | none => simp
        | some entry =>
          cases directory : entry.isDirectory with
          | true => simpa [directory] using ih
          | false => simp [directory]

theorem resolvePath_entry {e : DirEntry} : v.resolvePath d path = some (some (.entry e)) ↔
    v.resolvePathLoop d v.bpb.rootCluster (pathComponents path) = some (some e) := by
  unfold resolvePath
  by_cases root : pathComponents path = []
  · rw [if_pos root, root]
    simp [resolvePathLoop]
  · rw [if_neg root]
    simp [Option.map_eq_some_iff]

theorem resolversAgree_iff : v.ResolversAgree d path ↔
    ∀ e, v.resolvePathLoop d v.bpb.rootCluster (parentComponents path) = some (some e) ↔
      v.resolvePathLoop d v.bpb.rootCluster (pathComponents path) = some (some e) := by
  unfold ResolversAgree
  simp only [resolvePath_entry]
  constructor
  · rintro ⟨same, succeeds⟩ e
    constructor
    · intro found
      obtain ⟨D, last, parent, here⟩ := resolvePathLoop_eq_some_iff.mp found
      exact (same D last parent e).mp here
    · intro found
      obtain ⟨⟨D, last⟩, parent⟩ := succeeds e found
      exact resolvePathLoop_eq_some_iff.mpr ⟨D, last, parent, (same D last parent e).mpr found⟩
  · intro same
    refine ⟨fun D last parent e => ?_, fun e found => ?_⟩
    · rw [← same, resolvePathLoop_eq_some_iff]
      constructor
      · intro found
        exact ⟨D, last, parent, found⟩
      · rintro ⟨D', last', parent', found⟩
        cases parent.symm.trans parent'
        exact found
    · obtain ⟨D, last, parent, -⟩ := resolvePathLoop_eq_some_iff.mp ((same e).mpr found)
      exact ⟨(D, last), parent⟩

theorem findEntry_deleted {name : List UInt8} (deleted : name.head? = some 0xE5) (D : Nat) (e : DirEntry) :
    v.findEntry d D name ≠ some (some e) := by
  have first := (toShortName_deleted name).mpr deleted
  have skipped : ∀ (entries : List DirEntry) (k i : Nat),
      scan findSkips (toShortName name) entries k ≠ .hit i := by
    intro entries
    induction entries with
    | nil => exact fun _ _ => Scan.noConfusion
    | cons e rest ih =>
      intro k i hit
      rw [scan] at hit
      split_ifs at hit with stop skip match'
      · exact ih _ _ hit
      · have same : e.first = 0xE5 := (congrFun (of_decide_eq_true match') 0).trans first
        simp [findSkips, same] at skip
      · exact ih _ _ hit
  unfold findEntry
  generalize loopFuel = fuel
  induction fuel generalizing D with
  | zero => exact (Option.some_ne_none _).symm
  | succ fuel ih =>
    rw [findEntryLoop]
    split
    · dsimp only
      split
      · simp
      · next i here => exact absurd here (skipped _ _ _)
      · exact ih _
    · simp

theorem resolvePathLoop_absent {name : List UInt8} (absent : ∀ D e, v.findEntry d D name ≠ some (some e))
    {names : List (List UInt8)} (member : name ∈ names) (dirCluster : Nat) (e : DirEntry) :
    v.resolvePathLoop d dirCluster names ≠ some (some e) := by
  induction names generalizing dirCluster with
  | nil => exact absurd member List.not_mem_nil
  | cons first rest ih =>
    intro found
    obtain ⟨entry, here, onward⟩ := Option.bind_eq_some_iff.mp found
    cases entry with
    | none => cases onward
    | some entry =>
      rcases List.mem_cons.mp member with rfl | later
      · exact absent _ _ here
      · have more : rest ≠ [] := List.ne_nil_of_mem later
        cases directory : entry.isDirectory with
        | true =>
          simp only [more, directory, if_true, if_false] at onward
          exact ih later _ onward
        | false =>
          simp only [more, directory, Bool.false_eq_true, if_false] at onward
          cases onward

/-! ### Directories one inside the other -/

/-- A volume with one FAT of `2 ^ 20` sectors and one sector in a cluster. -/
def deep : Volume := ⟨0, ⟨512, 1, 1, 1, 0, 2 ^ 27, 2 ^ 20, 2⟩⟩

/-- The entry of directory `i`, the next directory, or an unused entry. -/
def link (names : List (List UInt8)) (i : Nat) : DirEntry :=
  (names[i]?).elim (fun _ => 0) fun name => buildDirEntry (toShortName name) 0x10 (i + 3) 0

/-- Directory `i` is in cluster `i + 2`. -/
def nested (names : List (List UInt8)) : Disk := fun lba =>
  if lba ≤ 2 ^ 20 then fun _ => 0xFF else putEntry (fun _ => 0) 0 (link names (lba - 2 ^ 20 - 1))

theorem nested_entryAt {names : List (List UInt8)} {i j : Nat} (low : i < 2 ^ 26) (few : j < 16) :
    entryAt (deep.readCluster (nested names) (i + 2)) j = if j = 0 then link names i else fun _ => 0 := by
  have lba : deep.clusterToLBA (i + 2) = 2 ^ 20 + 1 + i := by
    have data : deep.dataLba = 2 ^ 20 + 1 := by decide
    rw [clusterToLBA, data, show deep.bpb.sectorsPerCluster = 1 from rfl]
    omega
  have sector : entryAt (deep.readCluster (nested names) (i + 2)) j =
      entryAt (nested names (2 ^ 20 + 1 + i)) j := by
    funext k
    have bound := k.isLt
    have inside : 32 * j + k.val < 512 := by omega
    unfold entryAt readCluster
    rw [if_pos (show _ < deep.clusterSize from inside), lba, readSector, Nat.div_eq_of_lt inside, Nat.mod_eq_of_lt inside, Nat.add_zero,
      Nat.mod_eq_of_lt (by omega), Nat.mod_eq_of_lt (by omega)]
  rw [sector, nested, if_neg (by omega), entryAt_putEntry, show 2 ^ 20 + 1 + i - 2 ^ 20 - 1 = i by omega]
  rfl

theorem nested_findEntry (names : List (List UInt8)) {i : Nat} (low : i < 2 ^ 26) (name : List UInt8) :
    deep.findEntry (nested names) (i + 2) name =
      some (if (link names i).first ≠ 0 ∧ findSkips (link names i) = false ∧
        namesMatch (link names i) (toShortName name) then some (link names i) else none) := by
  obtain ⟨rest, shape⟩ : ∃ rest, entriesOf (deep.clusterSize / 32) (deep.readCluster (nested names) (i + 2)) =
        link names i :: (fun _ => 0) :: rest :=
    ⟨_, congrArg₂ List.cons (nested_entryAt low (by decide))
      (congrArg₂ List.cons (nested_entryAt low (by decide)) rfl)⟩
  have scanned : scan findSkips (toShortName name) (link names i :: (fun _ => 0) :: rest) 0 =
      if (link names i).first ≠ 0 ∧ findSkips (link names i) = false ∧
        namesMatch (link names i) (toShortName name) then .hit 0 else .stop := by
    have stop : scan findSkips (toShortName name) ((fun _ => 0) :: rest) 1 = .stop := if_pos rfl
    rw [scan, stop]
    split_ifs <;> simp_all
  rw [findEntry, show loopFuel = 4294967295 + 1 from rfl, findEntryLoop,
    if_pos (show i + 2 < endOfChain by unfold endOfChain; omega)]
  dsimp only
  rw [shape, scanned]
  split_ifs with hit
  · show some (some (entryAt _ 0)) = _
    rw [nested_entryAt low (by decide), if_pos rfl]
  · rfl

theorem nested_start {names ps : List (List UInt8)} {i : Nat} {e : DirEntry} (low : i + ps.length ≤ 2 ^ 26)
    (found : deep.resolvePathLoop (nested names) (i + 2) ps = some (some e)) :
    e.startCluster = i + ps.length + 2 := by
  induction ps generalizing i with
  | nil => cases found
  | cons name rest ih =>
    rw [List.length_cons] at low
    rw [resolvePathLoop, nested_findEntry names (by omega)] at found
    by_cases hit : (link names i).first ≠ 0 ∧ findSkips (link names i) = false ∧
      namesMatch (link names i) (toShortName name)
    · have start : (link names i).startCluster = i + 3 := by
        cases there : names[i]? with
        | none =>
          rw [link, there] at hit
          exact absurd rfl hit.1
        | some name =>
          rw [link, there]
          exact buildDirEntry_start _ _ _ _ (by omega)
      simp only [if_pos hit, Option.bind_eq_bind, Option.bind_some, start] at found
      split_ifs at found with last
      · cases found
        rw [start, last]
        rfl
      · rw [ih (by omega) found, List.length_cons]
        omega
      · cases found
    · rw [if_neg hit] at found
      cases found

theorem nested_leads {names : List (List UInt8)} (few : names.length ≤ 2 ^ 26)
    (terminated : ∀ name ∈ names, 0 ∉ name) (live : ∀ name ∈ names, name.head? ≠ some 0xE5)
    {front ps : List (List UInt8)} (split : names = front ++ ps) (some : ps ≠ []) :
    ∃ e, deep.resolvePathLoop (nested names) (front.length + 2) ps = Option.some (Option.some e) := by
  induction ps generalizing front with
  | nil => exact absurd rfl some
  | cons name rest ih =>
    have member : name ∈ names := by simp [split]
    have here : link names front.length = buildDirEntry (toShortName name) 0x10 (front.length + 3) 0 := by
      simp [link, split]
    have bound : front.length < 2 ^ 26 := by
      rw [split, List.length_append, List.length_cons] at few
      omega
    have hit : (link names front.length).first ≠ 0 ∧ findSkips (link names front.length) = false ∧
        namesMatch (link names front.length) (toShortName name) := by
      rw [here, buildDirEntry_first, findSkips, buildDirEntry_attributes, buildDirEntry_first, namesMatch,
        buildDirEntry_name]
      have alive : toShortName name 0 ≠ 0xE5 := fun deleted =>
        live name member ((toShortName_deleted name).mp deleted)
      exact ⟨(toShortName_first (terminated name member)).1, by simp [alive], by simp⟩
    have directory : (link names front.length).isDirectory = true := by
      rw [here, DirEntry.isDirectory, buildDirEntry_attributes]
      decide
    rw [resolvePathLoop, nested_findEntry names bound, if_pos hit]
    simp only [Option.bind_eq_bind, Option.bind_some]
    by_cases last : rest = []
    · exact ⟨_, if_pos last⟩
    · rw [if_neg last, if_pos directory, here, buildDirEntry_start _ _ _ _ (by omega)]
      have onward : names = (front ++ [name]) ++ rest := by simp [split]
      have leads := ih onward last
      rwa [List.length_append] at leads

/-- The path has no `//`, or a component that no directory holds. -/
def ReadAlike (path : CString) : Prop :=
  ¬ [47, 47] <:+: path.val ∨ ∃ name ∈ parentComponents path, name.head? = some 0xE5

/-- **The resolvers agree on a path**, whatever the volume holds, exactly if it has no `//`, or a component
that starts with 0xE5. For each other path of up to 64 MiB there is a volume on which they disagree. -/
theorem resolvers_agree_iff (path : CString) : (ReadAlike path → ∀ v d, ResolversAgree v d path) ∧
      (path.val.length ≤ 2 ^ 26 → ((∀ v d, ResolversAgree v d path) ↔ ReadAlike path)) := by
  have agree : ReadAlike path → ∀ v d, ResolversAgree v d path := by
    rintro alike v d
    rw [resolversAgree_iff]
    rcases alike with single | ⟨name, member, deleted⟩
    · rw [components_eq single]
      exact fun _ => Iff.rfl
    · have kept : name ∈ pathComponents path := by
        rw [pathComponents_filter, List.mem_filter]
        refine ⟨member, decide_eq_true ?_⟩
        rintro rfl
        cases deleted
      exact fun e => iff_of_false (resolvePathLoop_absent (findEntry_deleted deleted) member _ e)
        (resolvePathLoop_absent (findEntry_deleted deleted) kept _ e)
  refine ⟨agree, fun fits => ⟨fun same => ?_, agree⟩⟩
  by_contra other
  obtain ⟨double, live⟩ := not_or.mp other
  have empty := empty_mem_parentComponents (not_not.mp double)
  have few : (parentComponents path).length ≤ 2 ^ 26 := (cutPath_length _ _ _).trans fits
  have fewer : (pathComponents path).length < (parentComponents path).length := by
    rw [pathComponents_filter]
    exact List.length_filter_lt_length_iff_exists.mpr ⟨[], empty, by simp⟩
  -- on directories named after the components, the resolvers come to different depths
  obtain ⟨e, found⟩ := nested_leads few (parentComponents_terminated path)
    (fun name member deleted => live ⟨name, member, deleted⟩) (List.nil_append _).symm
    (List.ne_nil_of_mem empty)
  have found' := (resolversAgree_iff.mp (same deep (nested (parentComponents path))) e).mp found
  have depth := nested_start (i := 0) (by omega) found
  have depth' := nested_start (i := 0) (by omega) found'
  omega

theorem resolvers_agree_letter : sample.ResolversAgree withLetter ⟨[47, 65], by decide⟩ :=
  (resolvers_agree_iff ⟨[47, 65], by decide⟩).1 (.inl (by decide)) sample withLetter

/-- **A leading `//` hides a file from `ResolveParentDir`** that `ResolvePath` finds. -/
theorem double_slash_disagrees : ¬ ∀ v d path, ResolversAgree v d path := by
  intro claim
  let path : CString := ⟨[47, 47, 65], by decide⟩
  have found : ∃ e, sample.resolvePath withLetter path = some (some (.entry e)) := by
    have names : (sample.resolvePath withLetter path).map (·.map (· == .root)) = some (some false) := by
      decide +kernel
    obtain ⟨target, same, names⟩ := Option.map_eq_some_iff.mp names
    obtain ⟨target, rfl, names⟩ := Option.map_eq_some_iff.mp names
    cases target with
    | root => cases names
    | entry e => exact ⟨e, same⟩
  obtain ⟨e, found⟩ := found
  obtain ⟨parent, resolved⟩ := (claim sample withLetter path).2 e found
  have unresolved : sample.resolveParentDir withLetter path = some none := by decide +kernel
  rw [unresolved] at resolved
  cases resolved

end Volume

end LaylaOS.Fs
