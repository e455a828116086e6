/-
**The directory tree and its chains.**

The directories of a volume are the root and what live directory entries lead to. Each chain has an
owner: the root directory, or the slot of a live entry. `Sound` says that chains end, stay on the
volume and do not meet.

Every operation of the driver rewrites one slot of one directory, possibly after appending a
cluster to it (`Rewrites`); chains of other owners are left alone.
-/

import LaylaOS.Fs.Directory

namespace LaylaOS.Fs

open LaylaOS.Lib

/-- A live entry other than `.` and `..`. -/
def DirEntry.Named (e : DirEntry) : Prop :=
  e.isDead = false ∧ e.name ≠ dotName ∧ e.name ≠ dotDotName

instance (e : DirEntry) : Decidable e.Named := inferInstanceAs (Decidable (_ ∧ _ ∧ _))

namespace Image

/-- The first clusters of the directories of the tree. -/
inductive IsDir (I : Image) : Nat → Prop
  | root : IsDir I I.root
  | child {D : Nat} {e : DirEntry} : IsDir I D → e ∈ I.slots D → e.Named → e.isDirectory = true →
      IsDir I e.startCluster

/-- The owners of chains and where the chains start: the root directory, and slot `i` of the
directory `D` if it holds a live entry. -/
inductive Owns (I : Image) : Option (Nat × Nat) → Nat → Prop
  | root : Owns I none I.root
  | entry {D i : Nat} {e : DirEntry} : IsDir I D → (I.slots D)[i]? = some e → e.Named →
      Owns I (some (D, i)) e.startCluster

/-- Chains end, lie on the volume and belong to one owner each; directories are tidy. -/
structure Sound (I : Image) : Prop where
  directory : ∀ D, I.IsDir D → InTable D ∧ I.Strict D
  chained : ∀ o c, I.Owns o c → I.Loose c
  apart : ∀ o c o' c' x, I.Owns o c → I.Owns o' c' → x ∈ I.chain c → x ∈ I.chain c' → o = o'
  tidy : ∀ D, I.IsDir D → Tidy (I.slots D)

variable {I I' : Image} {D i : Nat} {e : DirEntry} {added : List Nat}

theorem IsDir.owner (dir : I.IsDir D) : ∃ o, I.Owns o D ∧
    ∀ D' i e, o = some (D', i) → (I.slots D')[i]? = some e → e.isDirectory = true := by
  cases dir with
  | root => exact ⟨none, .root, fun _ _ _ none => by cases none⟩
  | child parent member named directory =>
    obtain ⟨i, slot⟩ := List.mem_iff_getElem?.mp member
    refine ⟨_, .entry parent slot named, fun D' i' e' same slot' => ?_⟩
    cases same
    rw [slot] at slot'
    cases slot'
    exact directory

theorem IsDir.owner_ne {D' : Nat} (dir : I.IsDir D')
    (file : ∀ old, (I.slots D)[i]? = some old → old.Named → old.isDirectory = false) :
    ∃ o, I.Owns o D' ∧ o ≠ some (D, i) := by
  obtain ⟨o, owns, directory⟩ := dir.owner
  refine ⟨o, owns, fun same => ?_⟩
  subst same
  cases owns with
  | entry _ slot named =>
    have isFile := file _ slot named
    rw [directory D i _ rfl slot] at isFile
    cases isFile

/-- **One slot of one directory is rewritten.** The directory `D` may have grown by the clusters
`added`; slot `i`, which held no directory entry, now holds `e`, if `e` is live. The chains of other
owners are as they were, and a chain that starts at `e` meets none of them. -/
structure Rewrites (I I' : Image) (D i : Nat) (e : DirEntry) (added : List Nat) : Prop where
  dir : I.IsDir D
  shape : I'.toShape = I.toShape
  strict : I'.Strict D
  chain : I'.chain D = I.chain D ++ added
  tidy : Tidy (I'.slots D)
  here : ∀ e' : DirEntry, e'.isDead = false → ((I'.slots D)[i]? = some e' ↔ e' = e)
  others : ∀ j ≠ i, ∀ e' : DirEntry, e'.isDead = false →
    ((I'.slots D)[j]? = some e' ↔ (I.slots D)[j]? = some e')
  file : ∀ old, (I.slots D)[i]? = some old → old.Named → old.isDirectory = false
  frame : ∀ o c, I.Owns o c → o ≠ some (D, i) → c ≠ D →
    ∀ x ∈ I.chain c, I'.fat x = I.fat x ∧ I'.data x = I.data x
  fresh : ∀ x ∈ added, ∀ o c, I.Owns o c → o ≠ some (D, i) → x ∉ I.chain c
  loose : e.Named → I'.Loose e.startCluster
  alone : e.Named → ∀ x ∈ I'.chain e.startCluster,
    x ∉ added ∧ ∀ o c, I.Owns o c → o ≠ some (D, i) → x ∉ I.chain c
  empty : e.Named → e.isDirectory = true → InTable e.startCluster ∧ I'.Strict e.startCluster ∧
    Tidy (I'.slots e.startCluster) ∧ ∀ e' ∈ I'.slots e.startCluster, ¬ e'.Named

namespace Rewrites

variable (w : Rewrites I I' D i e added) (sound : I.Sound)
include w sound

theorem slots_eq {D' : Nat} (dir : I.IsDir D') (other : D' ≠ D) :
    I'.Strict D' ∧ I'.chain D' = I.chain D' ∧ I'.slots D' = I.slots D' := by
  obtain ⟨o, owns, notHere⟩ := dir.owner_ne w.file
  have frame := w.frame o D' owns notHere other
  obtain ⟨strict, same⟩ := (sound.directory D' dir).2.chain_congr w.shape fun x member =>
    (frame x member).1
  refine ⟨strict, same, ?_⟩
  rw [slots, slots, same]
  exact slotsOf_congr w.shape fun x member => (frame x member).2

theorem slot_iff {D' j : Nat} (dir : I.IsDir D') (different : (D', j) ≠ (D, i)) {e' : DirEntry}
    (live : e'.isDead = false) : (I'.slots D')[j]? = some e' ↔ (I.slots D')[j]? = some e' := by
  by_cases same : D' = D
  · subst same
    exact w.others j (fun equal => different (by rw [equal])) e' live
  · rw [(w.slots_eq sound dir same).2.2]

theorem isDir_mono {D' : Nat} (dir : I.IsDir D') : I'.IsDir D' := by
  induction dir with
  | root =>
    rw [show I.root = I'.root by rw [w.shape]]
    exact .root
  | @child D' e' parent member named directory ih =>
    obtain ⟨j, slot⟩ := List.mem_iff_getElem?.mp member
    have different : (D', j) ≠ (D, i) := by
      intro equal
      cases equal
      have file := w.file e' slot named
      rw [directory] at file
      cases file
    exact .child ih (List.mem_iff_getElem?.mpr
      ⟨j, (w.slot_iff sound parent different named.1).mpr slot⟩) named directory

/-- **The directories afterwards**: those before, and the one the new entry leads to. -/
theorem isDir_iff {D' : Nat} : I'.IsDir D' ↔
    I.IsDir D' ∨ (e.Named ∧ e.isDirectory = true ∧ D' = e.startCluster) := by
  constructor
  · intro dir
    induction dir with
    | root =>
      rw [show I'.root = I.root by rw [w.shape]]
      exact .inl .root
    | @child D' e' parent member named directory ih =>
      rcases ih with old | ⟨new, isDirectory, start⟩
      · obtain ⟨j, slot⟩ := List.mem_iff_getElem?.mp member
        by_cases here : (D', j) = (D, i)
        · cases here
          obtain rfl := (w.here e' named.1).mp slot
          exact .inr ⟨named, directory, rfl⟩
        · exact .inl (.child old (List.mem_iff_getElem?.mpr
            ⟨j, (w.slot_iff sound old here named.1).mp slot⟩) named directory)
      · exact absurd named ((w.empty new isDirectory).2.2.2 e' (start ▸ member))
  · rintro (old | ⟨named, directory, rfl⟩)
    · exact w.isDir_mono sound old
    · exact .child (w.isDir_mono sound w.dir) (List.mem_iff_getElem?.mpr
        ⟨i, (w.here e named.1).mpr rfl⟩) named directory

theorem owns_iff {o : Option (Nat × Nat)} {c : Nat} : I'.Owns o c ↔
    (I.Owns o c ∧ o ≠ some (D, i)) ∨ (o = some (D, i) ∧ e.Named ∧ c = e.startCluster) := by
  constructor
  · intro owns
    cases owns with
    | root =>
      rw [show I'.root = I.root by rw [w.shape]]
      exact .inl ⟨.root, by simp⟩
    | @entry D' j e' dir slot named =>
      rcases (w.isDir_iff sound).mp dir with old | ⟨new, isDirectory, start⟩
      · by_cases here : (D', j) = (D, i)
        · cases here
          obtain rfl := (w.here e' named.1).mp slot
          exact .inr ⟨rfl, named, rfl⟩
        · exact .inl ⟨.entry old ((w.slot_iff sound old here named.1).mp slot) named,
            fun same => here (Option.some.inj same)⟩
      · subst start
        exact absurd named ((w.empty new isDirectory).2.2.2 e' (List.mem_of_getElem? slot))
  · rintro (⟨owns, different⟩ | ⟨rfl, named, rfl⟩)
    · cases owns with
      | root =>
        rw [show I.root = I'.root by rw [w.shape]]
        exact .root
      | @entry D' j e' dir slot named =>
        exact .entry (w.isDir_mono sound dir)
          ((w.slot_iff sound dir (fun same => different (by rw [same])) named.1).mpr slot) named
    · exact .entry (w.isDir_mono sound w.dir) ((w.here e named.1).mpr rfl) named

theorem chain_eq {o : Option (Nat × Nat)} {c : Nat} (owns : I.Owns o c) (other : o ≠ some (D, i)) :
    I'.Loose c ∧ I'.chain c = I.chain c ++ if c = D then added else [] := by
  by_cases same : c = D
  · rw [if_pos same, same]
    exact ⟨w.strict.loose, w.chain⟩
  · rw [if_neg same, List.append_nil]
    exact (sound.chained o c owns).chain_congr w.shape fun x member =>
      (w.frame o c owns other same x member).1

theorem mem_chain {o : Option (Nat × Nat)} {c x : Nat} (owns : I.Owns o c)
    (other : o ≠ some (D, i)) (member : x ∈ I'.chain c) :
    x ∈ I.chain c ∨ (c = D ∧ x ∈ added) := by
  rw [(w.chain_eq sound owns other).2, List.mem_append] at member
  by_cases same : c = D
  · rw [if_pos same] at member
    exact member.imp_right fun new => ⟨same, new⟩
  · rw [if_neg same] at member
    exact .inl (member.resolve_right List.not_mem_nil)

theorem owner_unique {o o' : Option (Nat × Nat)} {c c' x : Nat} (owns : I.Owns o c)
    (owns' : I.Owns o' c') (other : o ≠ some (D, i)) (other' : o' ≠ some (D, i))
    (member : x ∈ I'.chain c) (member' : x ∈ I'.chain c') : o = o' := by
  rcases w.mem_chain sound owns other member with old | ⟨start, new⟩
  · rcases w.mem_chain sound owns' other' member' with old' | ⟨-, new'⟩
    · exact sound.apart o c o' c' x owns owns' old old'
    · exact absurd old (w.fresh x new' o c owns other)
  · rcases w.mem_chain sound owns' other' member' with old' | ⟨start', -⟩
    · exact absurd old' (w.fresh x new o' c' owns' other')
    · -- both own the directory itself
      obtain ⟨inTable, strict⟩ := sound.directory D w.dir
      have first := strict.walk.start_mem inTable
      rw [start] at owns
      rw [start'] at owns'
      exact sound.apart o D o' D D owns owns' first first

theorem not_mem_chain {o : Option (Nat × Nat)} {c x : Nat} (owns : I.Owns o c)
    (other : o ≠ some (D, i)) (named : e.Named) (new : x ∈ I'.chain e.startCluster) :
    x ∉ I'.chain c := by
  intro member
  obtain ⟨notAdded, notOwned⟩ := w.alone named x new
  rcases w.mem_chain sound owns other member with old | ⟨-, grown⟩
  · exact notOwned o c owns other old
  · exact notAdded grown

theorem preserves_sound : I'.Sound where
  directory D' dir := by
    rcases (w.isDir_iff sound).mp dir with old | ⟨named, directory, rfl⟩
    · refine ⟨(sound.directory D' old).1, ?_⟩
      by_cases same : D' = D
      · exact same ▸ w.strict
      · exact (w.slots_eq sound old same).1
    · exact ⟨(w.empty named directory).1, (w.empty named directory).2.1⟩
  chained o c owns := by
    rcases (w.owns_iff sound).mp owns with ⟨old, other⟩ | ⟨-, named, rfl⟩
    · exact (w.chain_eq sound old other).1
    · exact w.loose named
  apart o c o' c' x owns owns' member member' := by
    rcases (w.owns_iff sound).mp owns with ⟨old, other⟩ | ⟨rfl, named, rfl⟩
    · rcases (w.owns_iff sound).mp owns' with ⟨old', other'⟩ | ⟨rfl, named, rfl⟩
      · exact w.owner_unique sound old old' other other' member member'
      · exact absurd member (w.not_mem_chain sound old other named member')
    · rcases (w.owns_iff sound).mp owns' with ⟨old', other'⟩ | ⟨rfl, -, -⟩
      · exact absurd member' (w.not_mem_chain sound old' other' named member)
      · rfl
  tidy D' dir := by
    rcases (w.isDir_iff sound).mp dir with old | ⟨named, directory, rfl⟩
    · by_cases same : D' = D
      · exact same ▸ w.tidy
      · rw [(w.slots_eq sound old same).2.2]
        exact sound.tidy D' old
    · exact (w.empty named directory).2.2.1

end Rewrites

end Image

end LaylaOS.Fs
