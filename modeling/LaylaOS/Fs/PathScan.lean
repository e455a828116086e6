/-
**Scanning a path** (`FAT32::ResolvePath`, `FAT32::ResolveParentDir`).

Both resolvers get a `const char*` and look at `path[i]` until they find the terminator, or a component
that is not there. Here the path is any text, with or without a terminator, and the resolvers are loops
over its characters.

* `scans_resolve` — on a C string the loops compute `resolvePath` and `resolveParentDir`.
-/

import LaylaOS.Lib.Scanner
import LaylaOS.Fs.Lookup

namespace LaylaOS.Fs

open LaylaOS.Lib

/-- Where `ResolvePath` is: at `path[0]`, in the loop over the leading slashes, in the loop that copies a
component, or in the loop over the slashes behind the entry that it has found. -/
inductive PathPhase
  | start
  | slashes
  | name (component : List UInt8)
  | behind (e : DirEntry)

/-- Where `ResolveParentDir` is: at `path[0]`, at the head of its loop, in the loop that copies a
component, or behind the component. -/
inductive ParentPhase
  | start
  | head
  | name (component : List UInt8)
  | behind (component : List UInt8)

/-- The local variables `i` and `dir_cluster` of a resolver, and where it is. -/
structure PathScan (Phase : Type) where
  index : Nat
  dirCluster : Nat
  phase : Phase

/-- The component loops copy this byte: `path[i] != '\0' && path[i] != '/' && j < 12`. -/
def copies (c : UInt8) (component : List UInt8) : Bool := c ≠ 0 ∧ c ≠ 47 ∧ component.length < 12

namespace Volume

variable (v : Volume) (d : Disk) (text : Nat → UInt8)

/-- One round of `ResolvePath`, at `path[i]`. -/
def pathStep (s : PathScan PathPhase) : Progress (PathScan PathPhase) (Option (Option Target)) :=
  let c := text s.index
  match s.phase with
  | .start => if c = 0 then .ends (some (some .root)) else .more { s with phase := .slashes }
  | .slashes =>
    if c = 47 then .more { s with index := s.index + 1 }
    else if c = 0 then .ends (some (some .root))
    else .more { s with phase := .name [] }
  | .name component =>
    if copies c component then
      .more { s with index := s.index + 1, phase := .name (component ++ [c]) }
    else
      match v.findEntry d s.dirCluster component with
      | none => .ends none
      | some none => .ends (some none)
      | some (some e) => .more { s with phase := .behind e }
  | .behind e =>
    if c = 47 then .more { s with index := s.index + 1 }
    else if c = 0 then .ends (some (some (.entry e)))
    else if e.isDirectory then .more { s with dirCluster := e.startCluster, phase := .name [] }
    else .ends (some none)

/-- One round of `ResolveParentDir`, at `path[i]`. -/
def parentStep (s : PathScan ParentPhase) :
    Progress (PathScan ParentPhase) (Option (Option (Nat × List UInt8))) :=
  let c := text s.index
  match s.phase with
  | .start =>
    if c = 47 then .more { s with index := s.index + 1, phase := .head }
    else .more { s with phase := .head }
  | .head => if c = 0 then .ends (some none) else .more { s with phase := .name [] }
  | .name component =>
    if copies c component then
      .more { s with index := s.index + 1, phase := .name (component ++ [c]) }
    else if c = 47 then .more { s with index := s.index + 1, phase := .behind component }
    else .more { s with phase := .behind component }
  | .behind component =>
    if c = 0 then .ends (some (some (s.dirCluster, component)))
    else
      match v.findEntry d s.dirCluster component with
      | none => .ends none
      | some none => .ends (some none)
      | some (some e) =>
        if e.isDirectory then .more { s with dirCluster := e.startCluster, phase := .head }
        else .ends (some none)

/-- The resolvers before their first look at the path. -/
def pathStart : PathScan PathPhase := ⟨0, v.bpb.rootCluster, .start⟩

def parentStart : PathScan ParentPhase := ⟨0, v.bpb.rootCluster, .start⟩

variable {v d text}

theorem pathStep_scans : Scans (v.pathStep d text) PathScan.index text := by
  rintro ⟨i, dir, phase⟩ t one
  unfold pathStep at one
  cases phase <;> dsimp only at one <;> grind [copies]

theorem parentStep_scans : Scans (v.parentStep d text) PathScan.index text := by
  rintro ⟨i, dir, phase⟩ t one
  unfold parentStep at one
  cases phase <;> dsimp only at one <;> grind [copies]

theorem pathStep_found {s : PathScan PathPhase} {target : Target}
    (last : v.pathStep d text s = .ends (some (some target))) : text s.index = 0 := by
  obtain ⟨i, dir, phase⟩ := s
  unfold pathStep at last
  cases phase <;> dsimp only at last <;> grind

/-! ### On a C string -/

theorem copies_iff {c : UInt8} {component : List UInt8} :
    copies c component = true ↔ c ≠ 0 ∧ c ≠ 47 ∧ component.length < 12 := decide_eq_true_iff

theorem not_copies {i : Nat} {rest : List UInt8}
    (reads : Reads text (i + (component rest).length) (rest.drop (component rest).length)) :
    copies (text (i + (component rest).length)) (component rest) = false := by
  rw [Bool.eq_false_iff, Ne, copies_iff, reads.head]
  rintro ⟨some, other, short⟩
  have whole : component rest = rest.takeWhile (· ≠ 47) := by
    refine List.take_of_length_le ?_
    rw [component, List.length_take] at short
    omega
  have split : rest.drop (component rest).length = rest.dropWhile (· ≠ 47) := by
    nth_rewrite 2 [← List.takeWhile_append_dropWhile (p := (· ≠ 47)) (l := rest)]
    rw [whole, List.drop_left]
  rw [split] at some other
  have ends := List.head?_dropWhile_not (· ≠ 47) rest
  cases left : rest.dropWhile (· ≠ 47) with
  | nil => exact some (by rw [left]; rfl)
  | cons c tail =>
    rw [left] at ends other
    exact other (by simpa using ends)

theorem reaches_component {Phase ρ : Type} {step : PathScan Phase → Progress (PathScan Phase) ρ}
    (name : List UInt8 → Phase) {i : Nat} (dir : Nat) {rest : List UInt8}
    (copying : ∀ i out, copies (text i) out = true →
      step ⟨i, dir, name out⟩ = .more ⟨i + 1, dir, name (out ++ [text i])⟩)
    (reads : Reads text i rest) (proper : 0 ∉ rest) :
    Reaches step ⟨i, dir, name []⟩ ⟨i + (component rest).length, dir, name (component rest)⟩ ∧
      Reads text (i + (component rest).length) (rest.drop (component rest).length) := by
  constructor
  · let state (i : Nat) (out : List UInt8) : PathScan Phase := ⟨i, dir, name out⟩
    refine reaches_takeWhile state (· ≠ 47) 12 ?_ [] reads proper
    intro i out some other short
    exact copying i out (copies_iff.mpr ⟨some, of_decide_eq_true other, short⟩)
  · refine reads.drop ?_
    exact ((List.take_sublist _ _).trans (List.takeWhile_sublist _)).length_le

/-! ### `ResolveParentDir` -/

theorem reads_skipSlash {i : Nat} {rest : List UInt8} (reads : Reads text i rest) :
    Reads text (if text i = 47 then i + 1 else i) (skipSlash rest) := by
  cases rest with
  | nil =>
    have other : text i ≠ 47 := by
      rw [show text i = 0 from reads]
      decide
    rw [if_neg other]
    exact reads
  | cons c rest =>
    rw [reads.1]
    unfold skipSlash
    split_ifs with slash
    · subst slash
      exact reads.2
    · split
      · rename_i same
        exact absurd (List.cons.inj same).1 slash
      · exact reads

theorem parentStep_start (i dir : Nat) : v.parentStep d text ⟨i, dir, .start⟩ =
    .more ⟨if text i = 47 then i + 1 else i, dir, .head⟩ := by
  unfold parentStep
  dsimp only
  split <;> rfl

theorem parentStep_head (i dir : Nat) : v.parentStep d text ⟨i, dir, .head⟩ =
    if text i = 0 then .ends (some none) else .more ⟨i, dir, .name []⟩ := rfl

theorem parentStep_copies (dir i : Nat) (component : List UInt8)
    (takes : copies (text i) component = true) : v.parentStep d text ⟨i, dir, .name component⟩ =
      .more ⟨i + 1, dir, .name (component ++ [text i])⟩ := if_pos takes

theorem parentStep_name {i dir : Nat} {component : List UInt8}
    (done : copies (text i) component = false) : v.parentStep d text ⟨i, dir, .name component⟩ =
      .more ⟨if text i = 47 then i + 1 else i, dir, .behind component⟩ := by
  unfold parentStep
  dsimp only
  rw [if_neg (by rw [done]; decide)]
  split <;> rfl

theorem parentStep_behind (i dir : Nat) (component : List UInt8) :
    v.parentStep d text ⟨i, dir, .behind component⟩ =
      if text i = 0 then .ends (some (some (dir, component)))
      else
        match v.findEntry d dir component with
        | none => .ends none
        | some none => .ends (some none)
        | some (some e) =>
          if e.isDirectory then .more ⟨i, e.startCluster, .head⟩ else .ends (some none) := rfl

theorem cutPath_nil (skip : List UInt8 → List UInt8) (fuel : Nat) : cutPath skip fuel [] = [] := by
  cases fuel <;> rfl

theorem cutPath_ne_nil (skip : List UInt8 → List UInt8) {fuel : Nat} {rest : List UInt8}
    (some : rest ≠ []) (enough : rest.length ≤ fuel) : cutPath skip fuel rest ≠ [] := by
  cases fuel with
  | zero => exact absurd (List.length_eq_zero_iff.mp (Nat.le_zero.mp enough)) some
  | succ fuel =>
    rw [cutPath, if_neg some]
    exact List.cons_ne_nil _ _

theorem skip_component_proper {skip : List UInt8 → List UInt8} (suffix : ∀ l, skip l <:+ l)
    {rest : List UInt8} (proper : 0 ∉ rest) : 0 ∉ skip (rest.drop (component rest).length) :=
  fun zero => proper (List.drop_subset _ _ ((suffix _).subset zero))

/-- The components lead no further than to one before the last: it is not there, or not a directory. Behind
a `slash` the last one has to be there as well. -/
def StopsShort (v : Volume) (d : Disk) (slash : Bool) : Nat → List (List UInt8) → Prop
  | _, [] => False
  | dir, [last] => slash = true ∧ ∀ e, v.findEntry d dir last ≠ some (some e)
  | dir, name :: next :: rest => ∀ e, v.findEntry d dir name = some (some e) → e.isDirectory = true →
      v.StopsShort d slash e.startCluster (next :: rest)

section StopsShort

variable {slash : Bool} {dir : Nat} {name next : List UInt8} {names : List (List UInt8)} {e : DirEntry}

theorem stopsShort_of_absent (absent : ∀ e, v.findEntry d dir name ≠ some (some e)) :
    v.StopsShort d slash dir (name :: next :: names) := fun e found => absurd found (absent e)

theorem stopsShort_of_file (found : v.findEntry d dir name = some (some e)) (file : ¬ e.isDirectory = true) :
    v.StopsShort d slash dir (name :: next :: names) := by
  intro e' found' directory
  cases found.symm.trans found'
  exact absurd directory file

theorem stopsShort_iff (found : v.findEntry d dir name = some (some e)) (directory : e.isDirectory = true) :
    v.StopsShort d slash dir (name :: next :: names) ↔ v.StopsShort d slash e.startCluster (next :: names) := by
  refine ⟨fun stops => stops e found directory, fun stops e' found' _ => ?_⟩
  cases found.symm.trans found'
  exact stops

end StopsShort

theorem getLast?_of_suffix {path rest : List UInt8} (suffix : rest <:+ path) (some : rest ≠ []) :
    path.getLast? = rest.getLast? := by
  obtain ⟨front, rfl⟩ := suffix
  exact List.getLast?_append_of_ne_nil front some

theorem getLast?_of_slashes {rest : List UInt8} (some : rest ≠ []) (slashes : skipSlashes rest = []) :
    rest.getLast? = Option.some 47 := by
  rw [skipSlashes, List.dropWhile_eq_nil_iff] at slashes
  rw [List.getLast?_eq_some_getLast some]
  exact congrArg _ (of_decide_eq_true (slashes _ (List.getLast_mem some)))

theorem component_getLast? {rest : List UInt8} (whole : rest.drop (component rest).length = []) :
    rest.getLast? ≠ some 47 := by
  intro slash
  have same : component rest = rest := by
    have front : component rest <+: rest := (List.take_prefix _ _).trans (List.takeWhile_prefix _)
    exact front.eq_of_length_le (List.drop_eq_nil_iff.mp whole)
  have member : 47 ∈ component rest := by
    rw [same]
    exact List.mem_of_getLast? slash
  simpa using List.mem_takeWhile_imp (List.mem_of_mem_take member)

theorem parentBehind_ends {i dir : Nat} {name next : List UInt8} {names : List (List UInt8)}
    (inside : text i ≠ 0) (onward : ∀ e : DirEntry, EndsAt (v.parentStep d text) PathScan.index text
      ⟨i, e.startCluster, .head⟩ (v.resolveParentLoop d e.startCluster (next :: names))
      (v.StopsShort d false e.startCluster (next :: names))) :
    EndsAt (v.parentStep d text) PathScan.index text ⟨i, dir, .behind name⟩
      (v.resolveParentLoop d dir (name :: next :: names))
      (v.StopsShort d false dir (name :: next :: names)) := by
  have step := (parentStep_behind (v := v) (d := d) i dir name).trans (if_neg inside)
  rw [resolveParentLoop]
  cases found : v.findEntry d dir name with
  | none =>
    rw [found] at step
    exact .here step (stopsShort_of_absent (by simp [found])) inside
  | some entry =>
    rw [found] at step
    cases entry with
    | none => exact .here step (stopsShort_of_absent (by simp [found])) inside
    | some e =>
      dsimp only at step
      by_cases directory : e.isDirectory = true
      · rw [if_pos directory] at step
        rw [stopsShort_iff found directory]
        refine .next step ?_
        simpa [directory] using onward e
      · rw [if_neg directory] at step
        simpa [directory] using EndsAt.here step (stopsShort_of_file found directory) inside

theorem parentLoop_ends {fuel i dir : Nat} {rest : List UInt8} (reads : Reads text i rest)
    (proper : 0 ∉ rest) (enough : rest.length ≤ fuel) :
    EndsAt (v.parentStep d text) PathScan.index text ⟨i, dir, .head⟩
      (v.resolveParentLoop d dir (cutPath skipSlash fuel rest))
      (v.StopsShort d false dir (cutPath skipSlash fuel rest)) := by
  induction fuel generalizing i dir rest with
  | zero =>
    have empty := List.length_eq_zero_iff.mp (Nat.le_zero.mp enough)
    subst empty
    exact .passes ((parentStep_head i dir).trans (if_pos reads)) id reads
  | succ fuel ih =>
    rw [cutPath]
    split_ifs with empty
    · subst empty
      exact .passes ((parentStep_head i dir).trans (if_pos reads)) id reads
    · have some : text i ≠ 0 := fun zero => empty ((reads.eq_zero_iff proper).mp zero)
      obtain ⟨copied, behind⟩ := reaches_component ParentPhase.name dir (parentStep_copies dir) reads proper
      refine .next ((parentStep_head i dir).trans (if_neg some)) (.after copied ?_)
      refine .next (parentStep_name (not_copies behind)) ?_
      have later := reads_skipSlash behind
      have shorter := skip_component_shorter skipSlash_suffix skipSlash_slash empty enough
      have terminated := skip_component_proper skipSlash_suffix proper
      generalize skipSlash (rest.drop (component rest).length) = left at *
      by_cases last : left = []
      · subst last
        rw [cutPath_nil]
        exact .passes ((parentStep_behind ..).trans (if_pos later)) (fun stops => Bool.noConfusion stops.1)
          later
      · obtain ⟨next, names, cut⟩ := List.exists_cons_of_ne_nil (cutPath_ne_nil skipSlash last shorter)
        rw [cut]
        refine parentBehind_ends (fun zero => last ((later.eq_zero_iff terminated).mp zero)) fun e => ?_
        rw [← cut]
        exact ih later terminated shorter

theorem parentStep_ends (path : CString) (reads : Reads text 0 path.val) :
    EndsAt (v.parentStep d text) PathScan.index text v.parentStart (v.resolveParentDir d path)
      (v.StopsShort d false v.bpb.rootCluster (parentComponents path)) := by
  refine .next (parentStep_start 0 _) ?_
  exact parentLoop_ends (reads_skipSlash reads)
    (fun zero => path.property ((skipSlash_suffix _).subset zero)) (skipSlash_suffix _).length_le

/-! ### `ResolvePath` -/

theorem pathStep_start (i dir : Nat) : v.pathStep d text ⟨i, dir, .start⟩ =
    if text i = 0 then .ends (some (some .root)) else .more ⟨i, dir, .slashes⟩ := rfl

theorem pathStep_slash (dir i : Nat) (slash : decide (text i = 47) = true) :
    v.pathStep d text ⟨i, dir, .slashes⟩ = .more ⟨i + 1, dir, .slashes⟩ :=
  if_pos (of_decide_eq_true slash)

theorem pathStep_slashes {i : Nat} (dir : Nat) (other : text i ≠ 47) : v.pathStep d text ⟨i, dir, .slashes⟩ =
      if text i = 0 then .ends (some (some .root)) else .more ⟨i, dir, .name []⟩ := if_neg other

theorem pathStep_copies (dir i : Nat) (component : List UInt8)
    (takes : copies (text i) component = true) : v.pathStep d text ⟨i, dir, .name component⟩ =
      .more ⟨i + 1, dir, .name (component ++ [text i])⟩ := if_pos takes

theorem pathStep_name {i : Nat} (dir : Nat) {component : List UInt8}
    (done : copies (text i) component = false) : v.pathStep d text ⟨i, dir, .name component⟩ =
      match v.findEntry d dir component with
      | none => .ends none
      | some none => .ends (some none)
      | some (some e) => .more ⟨i, dir, .behind e⟩ :=
  if_neg (by rw [done]; decide)

theorem pathStep_pass (dir i : Nat) (e : DirEntry) (slash : decide (text i = 47) = true) :
    v.pathStep d text ⟨i, dir, .behind e⟩ = .more ⟨i + 1, dir, .behind e⟩ :=
  if_pos (of_decide_eq_true slash)

theorem pathStep_behind {i : Nat} (dir : Nat) (e : DirEntry) (other : text i ≠ 47) :
    v.pathStep d text ⟨i, dir, .behind e⟩ =
      if text i = 0 then .ends (some (some (.entry e)))
      else if e.isDirectory then .more ⟨i, e.startCluster, .name []⟩
      else .ends (some none) := if_neg other

theorem not_slash_of_skipSlashes {i : Nat} {rest : List UInt8}
    (reads : Reads text i (skipSlashes rest)) : text i ≠ 47 := by
  have ends := List.head?_dropWhile_not (· = 47) rest
  rw [reads.head]
  unfold skipSlashes
  cases left : rest.dropWhile (· = 47) with
  | nil => decide
  | cons c tail =>
    rw [left] at ends
    simpa using ends

theorem pathName_ends {fuel i dir : Nat} {rest : List UInt8} {slash : Bool}
    {result : Option (Option Target)} (behind : Reads text i (rest.drop (component rest).length))
    (proper : 0 ∉ rest) (ending : slash = true ↔ rest.getLast? = some 47)
    (enough : (skipSlashes (rest.drop (component rest).length)).length ≤ fuel)
    (absent : ∀ e, v.findEntry d dir (component rest) ≠ some (some e))
    (last : v.pathStep d text ⟨i, dir, .name (component rest)⟩ = .ends result) :
    EndsAt (v.pathStep d text) PathScan.index text ⟨i, dir, .name (component rest)⟩ result
      (v.StopsShort d slash dir (component rest ::
        cutPath skipSlashes fuel (skipSlashes (rest.drop (component rest).length)))) := by
  by_cases stop : rest.drop (component rest).length = []
  · rw [stop] at behind ⊢
    rw [show skipSlashes [] = [] from rfl, cutPath_nil]
    exact .passes last (fun stops => component_getLast? stop (ending.mp stops.1)) behind
  · refine .here last ?_ fun zero =>
      stop ((behind.eq_zero_iff fun z => proper (List.drop_subset _ _ z)).mp zero)
    cases cut : cutPath skipSlashes fuel (skipSlashes (rest.drop (component rest).length)) with
    | nil =>
      -- nothing but slashes follows
      refine ⟨ending.mpr ?_, absent⟩
      rw [getLast?_of_suffix (List.drop_suffix _ rest) stop]
      refine getLast?_of_slashes stop ?_
      by_contra more
      exact cutPath_ne_nil skipSlashes more enough cut
    | cons next names => exact stopsShort_of_absent absent

theorem pathBehind_ends {i dir : Nat} {name next : List UInt8} {names : List (List UInt8)} {slash : Bool}
    {e : DirEntry} (found : v.findEntry d dir name = some (some e)) (other : text i ≠ 47)
    (inside : text i ≠ 0) (onward : EndsAt (v.pathStep d text) PathScan.index text
      ⟨i, e.startCluster, .name []⟩ ((v.resolvePathLoop d e.startCluster (next :: names)).map (·.map .entry))
      (v.StopsShort d slash e.startCluster (next :: names))) :
    EndsAt (v.pathStep d text) PathScan.index text ⟨i, dir, .behind e⟩
      ((v.resolvePathLoop d dir (name :: next :: names)).map (·.map .entry))
      (v.StopsShort d slash dir (name :: next :: names)) := by
  have step := (pathStep_behind (v := v) (d := d) dir e other).trans (if_neg inside)
  rw [resolvePathLoop, found]
  by_cases directory : e.isDirectory = true
  · rw [if_pos directory] at step
    rw [stopsShort_iff found directory]
    refine .next step ?_
    simpa [directory] using onward
  · rw [if_neg directory] at step
    simpa [directory] using EndsAt.here step (stopsShort_of_file found directory) inside

theorem pathLoop_ends {fuel i dir : Nat} {rest : List UInt8} {slash : Bool} (reads : Reads text i rest)
    (proper : 0 ∉ rest) (some : rest ≠ []) (ending : slash = true ↔ rest.getLast? = Option.some 47)
    (enough : rest.length ≤ fuel) :
    EndsAt (v.pathStep d text) PathScan.index text ⟨i, dir, .name []⟩
      ((v.resolvePathLoop d dir (cutPath skipSlashes fuel rest)).map (·.map .entry))
      (v.StopsShort d slash dir (cutPath skipSlashes fuel rest)) := by
  induction fuel generalizing i dir rest with
  | zero => exact absurd (List.length_eq_zero_iff.mp (Nat.le_zero.mp enough)) some
  | succ fuel ih =>
    rw [cutPath, if_neg some]
    obtain ⟨copied, behind⟩ := reaches_component PathPhase.name dir (pathStep_copies dir) reads proper
    refine .after copied ?_
    have step := pathStep_name (v := v) (d := d) dir (not_copies behind)
    have shorter := skip_component_shorter skipSlashes_suffix skipSlashes_slash some enough
    cases found : v.findEntry d dir (component rest) with
    | none =>
      rw [found] at step
      rw [resolvePathLoop, found]
      exact pathName_ends behind proper ending shorter (by simp [found]) step
    | some entry =>
      rw [found] at step
      cases entry with
      | none =>
        rw [resolvePathLoop, found]
        exact pathName_ends behind proper ending shorter (by simp [found]) step
      | some e =>
        refine .next step ?_
        let state (i : Nat) : PathScan PathPhase := ⟨i, dir, .behind e⟩
        obtain ⟨j, passed, later⟩ := reaches_dropWhile state (· = 47)
          (fun i slash => pathStep_pass dir i e slash) behind
        refine .after passed ?_
        change Reads text j (skipSlashes _) at later
        have other := not_slash_of_skipSlashes later
        by_cases last : skipSlashes (rest.drop (component rest).length) = []
        · rw [last] at later
          rw [last, cutPath_nil, resolvePathLoop, found]
          exact .passes ((pathStep_behind dir e other).trans (if_pos later)) (fun stops => stops.2 e found) later
        · have terminated := skip_component_proper skipSlashes_suffix proper
          have inside : text j ≠ 0 := fun zero => last ((later.eq_zero_iff terminated).mp zero)
          rw [getLast?_of_suffix ((skipSlashes_suffix _).trans (List.drop_suffix _ rest)) last] at ending
          obtain ⟨next, names, cut⟩ :=
            List.exists_cons_of_ne_nil (cutPath_ne_nil skipSlashes last shorter)
          rw [cut]
          refine pathBehind_ends found other inside ?_
          rw [← cut]
          exact ih later terminated last ending shorter

theorem pathStep_ends (path : CString) (reads : Reads text 0 path.val) :
    EndsAt (v.pathStep d text) PathScan.index text v.pathStart (v.resolvePath d path)
      (v.StopsShort d (decide (path.val.getLast? = some 47)) v.bpb.rootCluster (pathComponents path)) := by
  unfold resolvePath
  by_cases empty : text 0 = 0
  · have none : pathComponents path = [] := by
      rw [pathComponents, (reads.eq_zero_iff path.property).mp empty]
      exact cutPath_nil _ _
    rw [if_pos none, none]
    exact .passes ((pathStep_start 0 _).trans (if_pos empty)) id empty
  · refine .next ((pathStep_start 0 _).trans (if_neg empty)) ?_
    let state (i : Nat) : PathScan PathPhase := ⟨i, v.bpb.rootCluster, .slashes⟩
    obtain ⟨j, passed, later⟩ := reaches_dropWhile state (· = 47)
      (fun i slash => pathStep_slash (v := v) (d := d) _ i slash) reads
    refine .after passed ?_
    change Reads text j (skipSlashes _) at later
    have step := pathStep_slashes (v := v) (d := d) v.bpb.rootCluster (not_slash_of_skipSlashes later)
    have terminated : 0 ∉ skipSlashes path.val := fun zero =>
      path.property ((skipSlashes_suffix _).subset zero)
    by_cases last : skipSlashes path.val = []
    · have none : pathComponents path = [] := by
        rw [pathComponents, last]
        exact cutPath_nil _ _
      have zero := (later.eq_zero_iff terminated).mpr last
      rw [if_pos none, none]
      exact .passes (step.trans (if_pos zero)) id zero
    · have enough := (skipSlashes_suffix path.val).length_le
      have more : pathComponents path ≠ [] := cutPath_ne_nil skipSlashes last enough
      rw [if_neg more]
      refine .next (step.trans (if_neg fun zero => last ((later.eq_zero_iff terminated).mp zero))) ?_
      refine pathLoop_ends later terminated last ?_ enough
      rw [decide_eq_true_iff, getLast?_of_suffix (skipSlashes_suffix _) last]

/-- **The scans resolve the path**: on a C string both loops end with what its components lead to, whatever
stands behind the terminator. -/
theorem scans_resolve (path : CString) (reads : Reads text 0 path.val) :
    Ends (v.pathStep d text) v.pathStart (v.resolvePath d path) ∧
      Ends (v.parentStep d text) v.parentStart (v.resolveParentDir d path) :=
  ⟨(pathStep_ends path reads).ends, (parentStep_ends path reads).ends⟩

theorem scans_resolve_letter :
    let v : Volume := ⟨0, ⟨512, 1, 1, 1, 100, 0, 1, 2⟩⟩
    let text : Nat → UInt8 := fun i => [47, 65, 0].getD i 66
    let path : CString := ⟨[47, 65], by decide⟩
    Ends (v.pathStep (fun _ _ => 0) text) v.pathStart (v.resolvePath (fun _ _ => 0) path) ∧
      Ends (v.parentStep (fun _ _ => 0) text) v.parentStart (v.resolveParentDir (fun _ _ => 0) path) :=
  scans_resolve _ ⟨rfl, rfl, rfl⟩

end Volume

end LaylaOS.Fs
