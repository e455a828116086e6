/-
**File trees, and directories that refer to each other.**

`FileTree` is what the users of a file system see: what each path leads to. A `Directories` is how it may
be stored: directories by their identities, each with entries that are files or refer to other directories.
If no directory is entered twice, an entry that is replaced is one path of the tree that is replaced.
-/

import Mathlib.Tactic

namespace LaylaOS.Lib

variable {ν β δ : Type}

/-- What a path leads to. -/
inductive Leaf (β : Type)
  | directory
  | file (contents : β)
  deriving DecidableEq

def Leaf.isDirectory : Leaf β → Bool
  | .directory => true
  | .file _ => false

/-- What each path leads to; the root is the empty path. -/
abbrev FileTree (ν β : Type) := List ν → Option (Leaf β)

namespace FileTree

variable (t : FileTree ν β) (path : List ν)

def isDirectory : Bool := (t path).any Leaf.isDirectory

def read : Option β := (t path).bind fun
  | .directory => none
  | .file contents => some contents

variable [DecidableEq ν]

/-- Writing a file needs a directory to put it in, and no directory of its name. -/
def write (contents : β) : Option (FileTree ν β) :=
  if t.isDirectory path.dropLast && !t.isDirectory path then
    some (Function.update t path (some (.file contents)))
  else none

/-- Only files can be deleted. -/
def delete : Option (FileTree ν β) :=
  if (t path).isSome && !t.isDirectory path then some (Function.update t path none) else none

/-- A new directory needs a directory to put it in, and a name that is not taken. -/
def makeDir : Option (FileTree ν β) :=
  if t.isDirectory path.dropLast && (t path).isNone then
    some (Function.update t path (some .directory))
  else none

/-- A call changes the tree and succeeds, or does neither. -/
def attempt (outcome : Option (FileTree ν β)) : FileTree ν β × Bool := (outcome.getD t, outcome.isSome)

end FileTree

/-- Directories by their identities. An entry is another directory or the contents of a file. -/
structure Directories (δ ν β : Type) where
  root : δ
  entry : δ → ν → Option (δ ⊕ β)

namespace Directories

/-- One component of a path. -/
def step (g : Directories δ ν β) (place : δ ⊕ β) (name : ν) : Option (δ ⊕ β) :=
  place.elim (g.entry · name) fun _ => none

/-- Where a path leads to. -/
def find (g : Directories δ ν β) (path : List ν) : Option (δ ⊕ β) := path.foldlM g.step (.inl g.root)

def leaf : δ ⊕ β → Leaf β
  | .inl _ => .directory
  | .inr contents => .file contents

/-- The tree of linked directories. -/
def tree (g : Directories δ ν β) : FileTree ν β := fun path => (g.find path).map leaf

variable {g g' : Directories δ ν β} {dir path : List ν} {name : ν} {D E : δ}

@[simp] theorem find_nil : g.find [] = some (.inl g.root) := rfl

theorem find_concat : g.find (path ++ [name]) = (g.find path).bind (g.step · name) := by
  simp [find, List.foldlM_append]

theorem find_entry (found : g.find path = some (.inl D)) : g.find (path ++ [name]) = g.entry D name := by
  rw [find_concat, found]
  rfl

theorem bind_step_none {place : Option (δ ⊕ β)}
    (absent : ∀ E, place = some (.inl E) → g.entry E name = none) : place.bind (g.step · name) = none := by
  rcases place with - | E | contents
  · rfl
  · exact absent E rfl
  · rfl

theorem find_concat_some {place : δ ⊕ β} (found : g.find (path ++ [name]) = some place) :
    ∃ D, g.find path = some (.inl D) ∧ g.entry D name = some place := by
  rw [find_concat] at found
  obtain ⟨before, here, onward⟩ := Option.bind_eq_some_iff.mp found
  cases before with
  | inl D => exact ⟨D, here, onward⟩
  | inr contents => cases onward

theorem isDirectory_iff : g.tree.isDirectory path = true ↔ ∃ D, g.find path = some (.inl D) := by
  rw [FileTree.isDirectory, tree]
  cases g.find path with
  | none => simp
  | some place => cases place <;> simp [leaf, Leaf.isDirectory]

/-- Some path leads to the directory. -/
def Reached (g : Directories δ ν β) (D : δ) : Prop := ∃ path, g.find path = some (.inl D)

/-- No directory is entered twice, and the root not at all. -/
structure Linked (g : Directories δ ν β) : Prop where
  root : ∀ D name, g.Reached D → g.entry D name ≠ some (.inl g.root)
  unique : ∀ D D' name name' E, g.Reached D → g.Reached D' → g.entry D name = some (.inl E) →
    g.entry D' name' = some (.inl E) → D = D' ∧ name = name'

namespace Linked

/-- **Each directory has one path.** -/
theorem find_inj (linked : g.Linked) {first second : List ν} (here : g.find first = some (.inl D))
    (there : g.find second = some (.inl D)) : first = second := by
  induction first using List.reverseRecOn generalizing second D with
  | nil =>
    cases here
    induction second using List.reverseRecOn with
    | nil => rfl
    | append_singleton second name =>
      obtain ⟨E, before, entry⟩ := find_concat_some there
      exact absurd entry (linked.root E name ⟨second, before⟩)
  | append_singleton first name ih =>
    obtain ⟨E, before, entry⟩ := find_concat_some here
    induction second using List.reverseRecOn with
    | nil =>
      cases there
      exact absurd entry (linked.root E name ⟨first, before⟩)
    | append_singleton second name' =>
      obtain ⟨E', before', entry'⟩ := find_concat_some there
      obtain ⟨rfl, rfl⟩ := linked.unique E E' name name' D ⟨first, before⟩ ⟨second, before'⟩ entry entry'
      rw [ih before before']

section Change

variable [DecidableEq ν] (linked : g.Linked) (root : g'.root = g.root) (here : g.find dir = some (.inl D))
  (same : ∀ E other, g.Reached E → (E, other) ≠ (D, name) → g'.entry E other = g.entry E other)
  (file : ∀ E, g.entry D name ≠ some (.inl E))
  (empty : ∀ E, g'.entry D name = some (.inl E) → ∀ other, g'.entry E other = none)

include linked root here same file empty

/-- The entry `name` of the directory `D` has changed; it was no directory, and if it is one now, it has no
entries. -/
theorem find_update (path : List ν) :
    g'.find path = if path = dir ++ [name] then g'.entry D name else g.find path := by
  have before : g.find (dir ++ [name]) = g.entry D name := find_entry here
  induction path using List.reverseRecOn with
  | nil => simp [root]
  | append_singleton path last ih =>
    by_cases hit : path ++ [last] = dir ++ [name]
    · obtain ⟨rfl, final⟩ := List.append_inj' hit rfl
      cases final
      rw [if_pos rfl, find_concat, ih, if_neg (by simp), here]
      rfl
    · rw [if_neg hit, find_concat, ih, find_concat]
      by_cases through : path = dir ++ [name]
      · -- behind the entry there is nothing, before and afterwards
        rw [if_pos through, through, before, bind_step_none fun E new => empty E new last,
          bind_step_none fun E old => absurd old (file E)]
      · rw [if_neg through]
        rcases there : g.find path with - | E | contents
        · rfl
        · refine same E last ⟨path, there⟩ fun place => hit ?_
          cases place
          rw [linked.find_inj there here]
        · rfl

theorem tree_update : g'.tree = Function.update g.tree (dir ++ [name]) ((g'.entry D name).map leaf) := by
  funext path
  rw [tree, linked.find_update root here same file empty path, Function.update_apply]
  split_ifs with hit
  · rfl
  · rfl

end Change

end Linked

end Directories

end LaylaOS.Lib
