/-
**Paths as lists of names** (`ResolvePath`).

A path names what is reached from the root by one lookup for each of the words between its slashes.
`ResolvePath` copies a word through a buffer of 13 bytes, and a longer word through several of them.

* `resolvePath_follows` — the paths on which `ResolvePath` is the fold.
-/

import LaylaOS.Fs.WriteRead

namespace LaylaOS.Fs

open LaylaOS.Lib

/-- The words of a path: what is between slashes, where that is not empty. -/
def words (path : List UInt8) : List (List UInt8) := (path.splitOn 47).filter (· ≠ [])

/-- A word cut into pieces of 12 bytes. -/
def pieces : List UInt8 → List (List UInt8)
  | [] => []
  | byte :: rest => (byte :: rest).take 12 :: pieces (rest.drop 11)
termination_by word => word.length
decreasing_by
  rw [List.length_drop, List.length_cons]
  omega

/-! ### The words of a path -/

theorem words_append_slash (front path : List UInt8) :
    words (front ++ 47 :: path) = words front ++ words path := by
  unfold words
  rw [List.splitOn_append_cons_self, List.filter_append]

theorem words_slash (path : List UInt8) : words (47 :: path) = words path := words_append_slash [] path

theorem skipSlashes_of_ne {byte : UInt8} (other : byte ≠ 47) (rest : List UInt8) :
    skipSlashes (byte :: rest) = byte :: rest :=
  List.dropWhile_cons_of_neg (by simpa using other)

theorem skipSlashes_slash_cons (rest : List UInt8) : skipSlashes (47 :: rest) = skipSlashes rest := rfl

theorem words_skipSlashes (path : List UInt8) : words (skipSlashes path) = words path := by
  induction path with
  | nil => rfl
  | cons byte rest ih =>
    by_cases slash : byte = 47
    · rw [slash, words_slash, skipSlashes_slash_cons, ih]
    · rw [skipSlashes_of_ne slash]

theorem skipSlashes_again (path : List UInt8) : skipSlashes (skipSlashes path) = skipSlashes path := by
  induction path with
  | nil => rfl
  | cons byte rest ih =>
    by_cases slash : byte = 47
    · rw [slash, skipSlashes_slash_cons, ih]
    · rw [skipSlashes_of_ne slash, skipSlashes_of_ne slash]

theorem words_single {word : List UInt8} (whole : 47 ∉ word) (some : word ≠ []) : words word = [word] := by
  unfold words
  rw [List.splitOn_eq_singleton whole, List.filter_cons_of_pos (by simpa using some)]
  rfl

theorem words_append {word rest : List UInt8} (whole : 47 ∉ word) (some : word ≠ [])
    (ends : rest = [] ∨ ∃ tail, rest = 47 :: tail) : words (word ++ rest) = word :: words rest := by
  rcases ends with rfl | ⟨tail, rfl⟩
  · rw [List.append_nil]
    exact words_single whole some
  · rw [words_append_slash, words_single whole some, words_slash]
    rfl

theorem pieces_of_ne_nil {word : List UInt8} (some : word ≠ []) :
    pieces word = word.take 12 :: pieces (word.drop 12) := by
  obtain ⟨byte, rest, rfl⟩ := List.exists_cons_of_ne_nil some
  rw [pieces, List.drop_succ_cons]

theorem pieces_of_short {word : List UInt8} (some : word ≠ []) (short : word.length ≤ 12) :
    pieces word = [word] := by
  rw [pieces_of_ne_nil some, List.take_of_length_le short, List.drop_of_length_le short, pieces]

theorem dropWhile_ends (path : List UInt8) :
    path.dropWhile (· ≠ 47) = [] ∨ ∃ tail, path.dropWhile (· ≠ 47) = 47 :: tail := by
  induction path with
  | nil => exact .inl rfl
  | cons byte rest ih =>
    by_cases slash : byte = 47
    · exact .inr ⟨rest, by rw [slash, List.dropWhile_cons_of_neg (by simp)]⟩
    · rwa [List.dropWhile_cons_of_pos (by simpa using slash)]

theorem flatMap_pieces_append {word rest : List UInt8} (whole : 47 ∉ word)
    (ends : rest = [] ∨ ∃ tail, rest = 47 :: tail) :
    (words (word ++ rest)).flatMap pieces = pieces word ++ (words rest).flatMap pieces := by
  by_cases empty : word = []
  · rw [empty, pieces]
    rfl
  · rw [words_append whole empty ends, List.flatMap_cons]

/-- A path that begins with no slash begins with a word, and a round of the loop takes twelve bytes of it
at most. -/
theorem exists_word {path : List UInt8} (some : path ≠ []) (begins : skipSlashes path = path) :
    ∃ word rest, path = word ++ rest ∧ word ≠ [] ∧ 47 ∉ word ∧
      (rest = [] ∨ ∃ tail, rest = 47 :: tail) ∧ component path = word.take 12 ∧
      path.drop (component path).length = word.drop 12 ++ rest := by
  have split : path = path.takeWhile (· ≠ 47) ++ path.dropWhile (· ≠ 47) := List.takeWhile_append_dropWhile.symm
  refine ⟨_, _, split, ?_, fun member => ?_, dropWhile_ends path, rfl, ?_⟩
  · obtain ⟨byte, rest, rfl⟩ := List.exists_cons_of_ne_nil some
    by_cases slash : byte = 47
    · have shorter := (skipSlashes_suffix rest).length_le
      rw [slash, skipSlashes_slash_cons] at begins
      rw [begins, List.length_cons] at shorter
      omega
    · rw [List.takeWhile_cons_of_pos (by simpa using slash)]
      exact List.cons_ne_nil _ _
  · simpa using List.mem_takeWhile_imp member
  · have pieced : path = component path ++ ((path.takeWhile (· ≠ 47)).drop 12 ++ path.dropWhile (· ≠ 47)) := by
      rw [component, ← List.append_assoc, List.take_append_drop]
      exact split
    exact (congrArg (List.drop (component path).length) pieced).trans List.drop_left

theorem cutPath_words {fuel : Nat} {path : List UInt8} (enough : path.length ≤ fuel)
    (begins : skipSlashes path = path) :
    cutPath skipSlashes fuel path = (words path).flatMap pieces := by
  induction fuel generalizing path with
  | zero =>
    rw [List.length_eq_zero_iff.mp (Nat.le_zero.mp enough)]
    rfl
  | succ fuel ih =>
    by_cases empty : path = []
    · rw [empty]
      rfl
    have shorter := skip_component_shorter skipSlashes_suffix skipSlashes_slash empty enough
    obtain ⟨word, rest, split, some, whole, ends, front, left⟩ := exists_word empty begins
    rw [cutPath, if_neg empty, ih shorter (skipSlashes_again _), words_skipSlashes, left, front, split,
      flatMap_pieces_append (fun member => whole (List.mem_of_mem_drop member)) ends,
      flatMap_pieces_append whole ends, pieces_of_ne_nil some]
    rfl

/-- **What `ResolvePath` looks up**: the words of the path in pieces of 12 bytes. -/
theorem pathComponents_eq (path : CString) : pathComponents path = (words path.val).flatMap pieces := by
  rw [pathComponents, cutPath_words (skipSlashes_suffix _).length_le (skipSlashes_again _), words_skipSlashes]

theorem words_ne_nil {path word : List UInt8} (member : word ∈ words path) : word ≠ [] := by
  simpa using List.of_mem_filter member

theorem mem_pieces {word : List UInt8} {byte : UInt8} (inside : byte ∈ word) :
    ∃ piece ∈ pieces word, byte ∈ piece := by
  induction word using pieces.induct with
  | case1 => exact absurd inside List.not_mem_nil
  | case2 first rest ih =>
    rw [pieces]
    rw [← List.take_append_drop 12 (first :: rest), List.mem_append] at inside
    rcases inside with front | later
    · exact ⟨_, List.mem_cons_self, front⟩
    · obtain ⟨piece, member, here⟩ := ih later
      exact ⟨piece, List.mem_cons_of_mem _ member, here⟩

theorem words_terminated (path : CString) : ∀ word ∈ words path.val, 0 ∉ word := by
  intro word member zero
  obtain ⟨piece, inside, here⟩ := mem_pieces zero
  refine pathComponents_terminated path piece ?_ here
  rw [pathComponents_eq]
  exact List.mem_flatMap.mpr ⟨word, member, inside⟩

theorem pieces_pos {word : List UInt8} (some : word ≠ []) : 1 ≤ (pieces word).length := by
  rw [pieces_of_ne_nil some]
  exact Nat.succ_le_succ (Nat.zero_le _)

theorem words_length_lt {path : CString} (long : ∃ word ∈ words path.val, 12 < word.length) :
    (words path.val).length < (pathComponents path).length := by
  have ones : (words path.val).length = ((words path.val).map fun _ => 1).sum := by simp
  rw [pathComponents_eq, List.length_flatMap, ones]
  refine List.sum_lt_sum _ _ (fun word member => pieces_pos (words_ne_nil member)) ?_
  obtain ⟨word, member, more⟩ := long
  refine ⟨word, member, ?_⟩
  rw [pieces_of_ne_nil (words_ne_nil member), List.length_cons]
  have left : word.drop 12 ≠ [] := fun none => by
    rw [List.drop_eq_nil_iff] at none
    omega
  exact Nat.succ_lt_succ (pieces_pos left)

theorem pathComponents_of_short {path : CString} (short : ∀ word ∈ words path.val, word.length ≤ 12) :
    pathComponents path = words path.val := by
  have whole : ∀ word ∈ words path.val, pieces word = [word] := fun word member =>
    pieces_of_short (words_ne_nil member) (short word member)
  rw [pathComponents_eq, List.flatMap_congr whole, List.flatMap_singleton']

/-! ### Lookup along a list of names -/

namespace Volume

variable (v : Volume) (d : Disk)

/-- The cluster in which to look behind a target, if that is a directory. -/
def directoryOf : Target → Option Nat
  | .root => some v.bpb.rootCluster
  | .entry e => if e.isDirectory then some e.startCluster else none

/-- One lookup from what has been reached, if anything has. -/
def descend (reached : Option Target) (name : List UInt8) : Option (Option Target) :=
  match reached.bind v.directoryOf with
  | none => some none
  | some cluster => (v.findEntry d cluster name).map (·.map .entry)

/-- Lookup folded over a list of names, from the root. -/
def follow (names : List (List UInt8)) : Option (Option Target) :=
  names.foldlM (v.descend d) (some .root)

/-- Every name but the last is found and is a directory, and the last one is found. -/
inductive Leads : Nat → List (List UInt8) → DirEntry → Prop
  | last {cluster name e} : v.findEntry d cluster name = some (some e) → Leads cluster [name] e
  | step {cluster name rest directory e} : v.findEntry d cluster name = some (some directory) →
      directory.isDirectory → Leads directory.startCluster rest e → Leads cluster (name :: rest) e

variable {v d}

theorem foldlM_descend_none (names : List (List UInt8)) : names.foldlM (v.descend d) none = some none := by
  induction names with
  | nil => rfl
  | cons name rest ih =>
    rw [List.foldlM_cons]
    exact ih

theorem foldlM_descend {target : Target} {cluster : Nat} (here : v.directoryOf target = some cluster)
    {names : List (List UInt8)} (some : names ≠ []) :
    names.foldlM (v.descend d) (.some target) = (v.resolvePathLoop d cluster names).map (·.map .entry) := by
  induction names generalizing target cluster with
  | nil => exact absurd rfl some
  | cons name rest ih =>
    have one : v.descend d (.some target) name = (v.findEntry d cluster name).map (·.map .entry) := by
      rw [descend, Option.bind_some, here]
    rw [List.foldlM_cons, one, resolvePathLoop]
    cases v.findEntry d cluster name with
    | none => rfl
    | some found =>
      cases found with
      | none => exact foldlM_descend_none rest
      | some entry =>
        show rest.foldlM (v.descend d) (.some (.entry entry)) = _
        by_cases last : rest = []
        · subst last
          rfl
        by_cases directory : entry.isDirectory = true
        · have inside : v.directoryOf (.entry entry) = .some entry.startCluster := if_pos directory
          rw [ih inside last]
          simp [last, directory]
        · obtain ⟨next, later, rfl⟩ := List.exists_cons_of_ne_nil last
          have nowhere : v.descend d (.some (.entry entry)) next = .some none := by
            rw [descend, Option.bind_some, directoryOf, if_neg directory]
          rw [List.foldlM_cons, nowhere]
          simpa [directory] using foldlM_descend_none later

theorem resolvePath_eq_follow (path : CString) : v.resolvePath d path = v.follow d (pathComponents path) := by
  unfold resolvePath follow
  split
  · next empty => rw [empty, List.foldlM_nil, Option.pure_def]
  · next some => exact (foldlM_descend rfl some).symm

theorem resolvePathLoop_leads {cluster : Nat} {names : List (List UInt8)} {e : DirEntry} :
    v.resolvePathLoop d cluster names = some (some e) ↔ v.Leads d cluster names e := by
  induction names generalizing cluster with
  | nil => exact iff_of_false (by simp [resolvePathLoop]) fun leads => by cases leads
  | cons name rest ih =>
    rw [resolvePathLoop]
    constructor
    · intro found
      obtain ⟨entry, here, onward⟩ := Option.bind_eq_some_iff.mp found
      cases entry with
      | none => cases onward
      | some entry =>
        by_cases last : rest = []
        · subst last
          obtain rfl : entry = e := by simpa using onward
          exact .last here
        by_cases directory : entry.isDirectory = true
        · simp only [last, directory, if_true, if_false] at onward
          exact .step here directory (ih.mp onward)
        · simp [last, directory] at onward
    · intro leads
      cases leads with
      | last here =>
        rw [here]
        rfl
      | step here directory onward =>
        have last : rest ≠ [] := by
          rintro rfl
          cases onward
        rw [here]
        simpa [last, directory] using ih.mpr onward

/-- `ResolvePath` gives the root if the path has no words, and it gives an entry if and only if every word
but the last is found and is a directory and the last one is found as that entry. -/
def Follows (v : Volume) (d : Disk) (path : CString) : Prop :=
  (v.resolvePath d path = some (some .root) ↔ words path.val = []) ∧
    ∀ e, v.resolvePath d path = some (some (.entry e)) ↔ v.Leads d v.bpb.rootCluster (words path.val) e

/-- Every word fits the buffer, or there is one that no directory holds. -/
def WordsFit (path : CString) : Prop :=
  (∀ word ∈ words path.val, word.length ≤ 12) ∨ ∃ word ∈ words path.val, word.head? = some 0xE5

theorem resolvePath_root_iff {path : CString} :
    v.resolvePath d path = some (some .root) ↔ words path.val = [] := by
  have none : pathComponents path = [] ↔ words path.val = [] := by
    rw [pathComponents_eq, List.flatMap_eq_nil_iff]
    refine ⟨fun all => List.eq_nil_iff_forall_not_mem.mpr fun word member => ?_, fun none => by simp [none]⟩
    have := pieces_pos (words_ne_nil member)
    simp [all word member] at this
  rw [← none]
  unfold resolvePath
  by_cases empty : pathComponents path = []
  · exact iff_of_true (if_pos empty) empty
  · rw [if_neg empty]
    refine iff_of_false (fun root => ?_) empty
    obtain ⟨result, -, same⟩ := Option.map_eq_some_iff.mp root
    cases result <;> cases same

theorem follows_of_wordsFit {path : CString} (fit : WordsFit path) (v : Volume) (d : Disk) :
    v.Follows d path := by
  refine ⟨resolvePath_root_iff, fun e => ?_⟩
  rw [resolvePath_entry, ← resolvePathLoop_leads]
  rcases fit with short | ⟨word, member, deleted⟩
  · rw [pathComponents_of_short short]
  · have cut : word.take 12 ∈ pathComponents path := by
      rw [pathComponents_eq]
      refine List.mem_flatMap.mpr ⟨word, member, ?_⟩
      rw [pieces_of_ne_nil (words_ne_nil member)]
      exact List.mem_cons_self
    have front : (word.take 12).head? = some 0xE5 := by simpa [List.head?_take] using deleted
    exact iff_of_false (resolvePathLoop_absent (findEntry_deleted front) cut _ e)
      (resolvePathLoop_absent (findEntry_deleted deleted) member _ e)

/-- **`ResolvePath` follows the words of a path**, whatever the volume holds, exactly if they fit its buffer
or one of them starts with 0xE5. For each other path of up to 64 MiB there is a volume on which it does
not. With words that fit, it is lookup folded over them, also where a lookup never ends. -/
theorem resolvePath_follows (path : CString) : (WordsFit path → ∀ v d, Follows v d path) ∧
      (path.val.length ≤ 2 ^ 26 → ((∀ v d, Follows v d path) ↔ WordsFit path)) ∧
      ((∀ word ∈ words path.val, word.length ≤ 12) →
        ∀ (v : Volume) d, v.resolvePath d path = v.follow d (words path.val)) := by
  refine ⟨follows_of_wordsFit, fun fits => ⟨fun follows => ?_, follows_of_wordsFit⟩, fun short v d => ?_⟩
  · by_contra other
    obtain ⟨long, live⟩ := not_or.mp other
    simp only [not_forall, not_le] at long
    obtain ⟨word, member, long⟩ := long
    have fewer := words_length_lt ⟨word, member, long⟩
    have few : (pathComponents path).length ≤ 2 ^ 26 := (cutPath_length _ _ _).trans fits
    -- on directories named after the words, the pieces would have to lead deeper
    obtain ⟨e, found⟩ := nested_leads (by omega) (words_terminated path)
      (fun name inside deleted => live ⟨name, inside, deleted⟩) (List.nil_append _).symm
      (List.ne_nil_of_mem member)
    have found' := ((follows deep (nested (words path.val))).2 e).mpr (resolvePathLoop_leads.mp found)
    have depth := nested_start (i := 0) (by omega) found
    have depth' := nested_start (i := 0) (by omega) (resolvePath_entry.mp found')
    omega
  · rw [← pathComponents_of_short short]
    exact resolvePath_eq_follow path

theorem resolvePath_follows_eight : ∃ e, sample.resolvePath withDirectory eightPath = some (some (.entry e)) ∧
      sample.Leads withDirectory sample.bpb.rootCluster (words eightPath.val) e := by
  obtain ⟨root, entry⟩ := (resolvePath_follows eightPath).1 (.inl (by decide)) sample withDirectory
  have succeeds : (sample.resolvePath withDirectory eightPath).join.isSome := by decide +kernel
  obtain ⟨target, found⟩ := Option.isSome_iff_exists.mp succeeds
  have resolved := Option.join_eq_some_iff.mp found
  cases target with
  | root => exact absurd (root.mp resolved) (by decide)
  | entry e => exact ⟨e, resolved, (entry e).mp resolved⟩

/-- **A word of more than 12 bytes is not looked up as one name**: `ABCDEFGH` is a directory, a lookup of
`longPath` finds it, and `ResolvePath` does not. -/
theorem resolvePath_cuts_word : words longPath.val = [longPath.val] ∧
      (sample.findEntry withDirectory sample.bpb.rootCluster longPath.val).join.isSome ∧
      sample.resolvePath withDirectory longPath = some none := by
  decide +kernel

end Volume

end LaylaOS.Fs
