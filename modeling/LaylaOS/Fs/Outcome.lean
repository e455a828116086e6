/-
**What a successful write or delete leaves behind.**

The volume after `WriteFile` has returned true: one name of one directory stands for the new file,
every other name and every other file is as it was. After `DeleteFile` one name is gone.
-/

import LaylaOS.Fs.Operations

namespace LaylaOS.Fs

open LaylaOS.Lib

namespace Image

variable {I I' J : Image} {D i first : Nat} {name : List UInt8} {old : Option DirEntry}
  {O L : List Nat} {data : List UInt8}

/-- All names but `name83` in the directory `D` are found as before. -/
def SameLookups (I I' : Image) (D : Nat) (name83 : Name) : Prop :=
  ∀ D' n, I.IsDir D' → (D', n) ≠ (D, name83) → I'.lookup D' n = I.lookup D' n

/-- The files in other slots than `i` of `D` have the same bytes and chains. -/
def SameFiles (I I' : Image) (D i : Nat) : Prop :=
  ∀ D' j e, I.IsDir D' → (I.slots D')[j]? = some e → e.Named → e.isDirectory = false →
    (D', j) ≠ (D, i) → I'.contents e = I.contents e ∧ (I.Strict e.startCluster →
      I'.Strict e.startCluster)

theorem Rewrites.sameFiles {e : DirEntry} {added : List Nat} (w : Rewrites I I' D i e added)
    (sound : I.Sound) : SameFiles I I' D i := by
  intro D' j e' dir slot named file other
  obtain ⟨contents, -, fat⟩ := w.contents_eq sound dir slot named file other
  exact ⟨contents, fun strict => (strict.chain_congr w.shape fat).1⟩

theorem Matches.of_name_ne {n : Name} {e : DirEntry} (other : e.name ≠ n) : Matches n e = false := by
  simp [Matches, namesMatch, other]

theorem Matches.of_dead {n : Name} {e : DirEntry} (dead : e.isDead = true) : Matches n e = false := by
  simp [Matches, dead]

theorem lookup_none {n : Name} {e : DirEntry} {j : Nat} (none : I.lookup D n = none)
    (slot : (I.slots D)[j]? = some e) : Matches n e = false := by
  simpa using List.find?_eq_none.mp none e (List.mem_of_getElem? slot)

namespace Vacates

variable {name83 : Name} (vacates : Vacates I D name83 old i O)
include vacates

theorem name_eq {n : Name} (other : n ≠ name83) : ∀ e, (I.slots D)[i]? = some e → Matches n e = false := by
  intro e slot
  cases vacates with
  | new =>
    rw [List.getElem?_eq_none le_rfl] at slot
    cases slot
  | old found slot' _ _ =>
    obtain ⟨inside, matched, -⟩ := List.findIdx?_eq_some_iff_getElem.mp found
    obtain ⟨_, same⟩ := List.getElem?_eq_some_iff.mp slot
    rw [same] at matched
    exact Matches.of_name_ne ((Matches.live matched).2 ▸ Ne.symm other)

theorem others_unmatched (unique : I.UniqueNames) (dir : I.IsDir D) (found : I.lookup D name83 = old) :
    ∀ j ≠ i, ∀ e, (I.slots D)[j]? = some e → Matches name83 e = false := by
  intro j other e slot
  cases vacates with
  | new => exact lookup_none found slot
  | old position slot' _ _ =>
    obtain ⟨inside, matched, -⟩ := List.findIdx?_eq_some_iff_getElem.mp position
    obtain ⟨_, same⟩ := List.getElem?_eq_some_iff.mp slot'
    rw [same] at matched
    by_contra isMatch
    rw [Bool.not_eq_false] at isMatch
    exact other (unique D dir j i e _ slot slot' (Matches.live isMatch).1 (Matches.live matched).1
      ((Matches.live isMatch).2.trans (Matches.live matched).2.symm))

end Vacates

theorem Rewrites.vacated {name83 : Name} {e₀ : DirEntry} (w : Rewrites I J D i e₀ [])
    (sound : I.Sound) (unique : I.UniqueNames) (dir : I.IsDir D) (dead : e₀.isDead = true)
    (found : I.lookup D name83 = old) (vacates : Vacates I D name83 old i O) :
    J.lookup D name83 = none ∧ SameLookups I J D name83 ∧ J.UniqueNames := by
  refine ⟨w.lookup_gone dead (vacates.others_unmatched unique dir found), ?_, ?_⟩
  · intro D' n dir' other
    refine w.lookup_other sound dir' (fun _ => Matches.of_dead dead) fun same => ?_
    exact vacates.name_eq fun equal => other (by rw [same, equal])
  · refine w.uniqueNames sound unique (fun live => ?_) fun named => ?_
    · rw [dead] at live
      cases live
    · exact absurd named (Named.not_of_dead dead)

/-- **A file has been written**: the name stands for an entry with the contents `data`, or for
nothing if it starts with 0xE5; everything else is as it was. -/
structure Written (I I' : Image) (D i : Nat) (name : List UInt8) (data : List UInt8) : Prop where
  sound : I'.Sound
  unique : I'.UniqueNames
  isDir_iff : ∀ D', I'.IsDir D' ↔ I.IsDir D'
  lookups : SameLookups I I' D (toShortName name)
  files : SameFiles I I' D i
  fatZero : I'.fat 0 = I.fat 0
  shape : I'.toShape = I.toShape
  lost : toShortName name 0 = 0xE5 → I'.lookup D (toShortName name) = none
  stored : toShortName name 0 ≠ 0xE5 → ∃ e, I'.lookup D (toShortName name) = some e ∧
    e.isDirectory = false ∧ e.size = data.length ∧ I'.contents e = data ∧
    InTable e.startCluster ∧ I'.Strict e.startCluster

theorem Inserted.lookups {m : Nat} {e : DirEntry} {added : List Nat}
    (inserted : Inserted J I' D m e added) (sound : J.Sound) : SameLookups J I' D e.name := by
  intro D' n dir other
  refine inserted.rewrites.lookup_other sound dir (fun same => ?_) fun _ e' slot => ?_
  · exact Matches.of_name_ne fun equal => other (by rw [same, equal])
  · exact Matches.of_dead (inserted.vacant e' slot)

theorem Inserted.contents {m : Nat} {e : DirEntry} {added : List Nat}
    (inserted : Inserted J I' D m e added) (named : e.Named) : I'.contents e = J.contents e := by
  unfold Image.contents
  rw [inserted.chain named]
  congr 1
  refine List.flatMap_congr fun x member => ?_
  rw [bytesOf, bytesOf, inserted.data named x member, inserted.rewrites.shape]

theorem Inserted.unique {m : Nat} {e : DirEntry} {added : List Nat}
    (inserted : Inserted J I' D m e added) (sound : J.Sound) (unique : J.UniqueNames)
    (absent : e.isDead = false → J.lookup D e.name = none)
    (inside : e.Named → e.isDirectory = true → ∀ (a b : Nat) (e₁ e₂ : DirEntry),
      (I'.slots e.startCluster)[a]? = some e₁ → (I'.slots e.startCluster)[b]? = some e₂ →
      e₁.isDead = false → e₂.isDead = false → e₁.name = e₂.name → a = b) :
    I'.UniqueNames := by
  refine inserted.rewrites.uniqueNames sound unique (fun live j _ e' slot live' same => ?_) inside
  have unmatched := lookup_none (absent live) slot
  simp [Matches, namesMatch, live', same] at unmatched

theorem SameFiles.trans {m : Nat} {e₀ e : DirEntry} {added : List Nat}
    (w : Rewrites I J D i e₀ []) (sound : I.Sound) (inserted : Inserted J I' D m e added) :
    SameFiles I I' D i := by
  intro D' j e' dir slot named file other
  obtain ⟨contents, strict⟩ := w.sameFiles sound D' j e' dir slot named file other
  have slot' := (w.slot_iff sound dir other named.1).mpr slot
  have different : (D', j) ≠ (D, m) := by
    intro same
    cases same
    exact Named.not_of_dead (inserted.vacant e' slot') named
  obtain ⟨contents', strict'⟩ := inserted.rewrites.sameFiles (w.preserves_sound sound) D' j e'
    (w.isDir_mono sound dir) slot' named file different
  exact ⟨contents'.trans contents, fun before => strict' (strict before)⟩

theorem Store.written (store : Store I D (toShortName name) data old i O I' true)
    (sound : I.Sound) (unique : I.UniqueNames) (dir : I.IsDir D) (terminated : 0 ∉ name)
    (found : I.lookup D (toShortName name) = old)
    (vacates : Vacates I D (toShortName name) old i O) (size : data.length < 2 ^ 32) :
    Written I I' D i name data := by
  cases store with
  | @done first m rest added J _ room staged whole word inserted =>
    obtain ⟨e₀, dead, w⟩ := staged.rewrites
    obtain ⟨absent, lookups, uniqueJ⟩ := w.vacated sound unique dir dead found vacates
    have soundJ := staged.sound sound
    have w' := inserted.rewrites
    have isDir : ∀ D', I'.IsDir D' ↔ I.IsDir D' := by
      intro D'
      rw [w'.isDir_iff soundJ, staged.isDir_iff sound]
      refine or_iff_left fun new => ?_
      rw [fileEntry_isDirectory] at new
      cases new.2.1
    have sameName := buildDirEntry_name (toShortName name) 0x20 first data.length
    have lookups' := inserted.lookups soundJ
    rw [sameName] at lookups'
    refine ⟨w'.preserves_sound soundJ, ?_, isDir, ?_, SameFiles.trans w sound inserted,
      inserted.fatZero.trans staged.fatZero, w'.shape.trans w.shape, ?_, ?_⟩
    · refine inserted.unique soundJ uniqueJ (fun _ => by rw [sameName]; exact absent) ?_
      intro _ directory
      rw [fileEntry_isDirectory] at directory
      cases directory
    · intro D' n dir' other
      rw [lookups' D' n ((staged.isDir_iff sound).mpr dir') other, lookups D' n dir' other]
    · intro deleted
      refine w'.lookup_gone ?_ fun j _ e' slot => lookup_none absent slot
      rw [builtEntry_isDead terminated, deleted]
      rfl
    · intro valid
      have named := builtEntry_named terminated first data.length 0x20 valid
      have here := w'.lookup_new named.1 fun j _ e' slot => by
        rw [sameName]
        exact lookup_none absent slot
      have start := buildDirEntry_start (toShortName name) 0x20 first data.length word
      have bytes := buildDirEntry_size (toShortName name) 0x20 first data.length size
      have strict := inserted.strict named
      rw [sameName] at here
      rw [start] at strict
      refine ⟨_, here, fileEntry_isDirectory .., bytes, ?_, ?_, ?_⟩
      · rw [inserted.contents named, Image.contents, start, staged.chain, bytes]
        exact whole
      · rw [start]
        have member : first ∈ J.chain first := by rw [staged.chain]; exact List.mem_cons_self
        exact staged.strict.walk.mem_inside member
      · rw [start]
        exact strict

/-- A name that stood for no directory and does not do so now leads every path to the same parent
as before. -/
theorem SameLookups.resolveParent {name83 : Name} (same : SameLookups I I' D name83)
    (shape : I'.toShape = I.toShape) (before : I.subdirectory D name83 = none)
    (after : I'.subdirectory D name83 = none) {names : List (List UInt8)}
    (terminated : ∀ n ∈ names, 0 ∉ n) :
    I'.resolveParent I'.root names = I.resolveParent I.root names := by
  rw [shape]
  refine resolveParent_congr (fun D' dir n _ => ?_) .root terminated
  by_cases here : D' = D ∧ toShortName n = name83
  · rw [here.1, here.2, before, after]
  · unfold subdirectory
    rw [same D' _ dir fun equal => here (by simpa using equal)]

theorem Vacates.subdirectory {name83 : Name} (vacates : Vacates I D name83 old i O)
    (found : I.lookup D name83 = old) : I.subdirectory D name83 = none := by
  unfold Image.subdirectory
  rw [found]
  cases vacates with
  | new => rfl
  | old _ _ _ file => simp [Option.filter, file]

/-- **A successful `WriteFile`** has written the file of some name of some directory. -/
theorem Write.written {names : List (List UInt8)} (write : Write I names data I' true)
    (sound : I.Sound) (unique : I.UniqueNames) (terminated : ∀ n ∈ names, 0 ∉ n)
    (size : data.length < 2 ^ 32) :
    ∃ D name old i O, I.resolveParent I.root names = some (D, name) ∧
      names.getLast? = some name ∧ I.IsDir D ∧ I.lookup D (toShortName name) = old ∧
      Vacates I D (toShortName name) old i O ∧ Written I I' D i name data ∧
      ∀ {names' : List (List UInt8)}, (∀ n ∈ names', 0 ∉ n) →
        I'.resolveParent I'.root names' = I.resolveParent I.root names' := by
  cases write with
  | @store D i name old O _ _ found entry vacates store =>
    obtain ⟨dir, last⟩ := resolveParent_isDir .root terminated found
    have ended := terminated name (List.mem_of_getLast? last)
    have result := store.written sound unique dir ended entry vacates size
    refine ⟨D, name, old, i, O, found, last, dir, entry, vacates, result, fun terminated' => ?_⟩
    refine result.lookups.resolveParent result.shape (vacates.subdirectory entry) ?_ terminated'
    unfold subdirectory
    by_cases deleted : toShortName name 0 = 0xE5
    · rw [result.lost deleted]
      rfl
    · obtain ⟨e, here, file, -⟩ := result.stored deleted
      rw [here]
      simp [Option.filter, file]

theorem Vacates.delete_rewrites {name83 : Name} {e : DirEntry}
    (vacates : Vacates I D name83 (some e) i O) (sound : I.Sound) (dir : I.IsDir D) :
    Rewrites I ((I.free O).putSlot (I.chain D) i e.deleted) D i e.deleted [] := by
  have agrees : Agrees I (I.free O) (some (D, i)) :=
    vacates.agrees (L := []) sound dir rfl (List.nil_subset _) (fun _ _ => rfl) fun _ _ => rfl
  exact (agrees.admits_dead dir vacates.file e.deleted_isDead).put_rewrites sound
    vacates.slot.2.2 (vacates.tidy_deleted (sound.tidy D dir))

/-- **A file has been deleted**: the name stands for nothing, everything else is as it was. -/
structure Deleted (I I' : Image) (D i : Nat) (name83 : Name) : Prop where
  sound : I'.Sound
  unique : I'.UniqueNames
  isDir_iff : ∀ D', I'.IsDir D' ↔ I.IsDir D'
  lookups : SameLookups I I' D name83
  files : SameFiles I I' D i
  fatZero : I'.fat 0 = I.fat 0
  shape : I'.toShape = I.toShape
  gone : I'.lookup D name83 = none

theorem Vacates.deleted {name83 : Name} {e : DirEntry}
    (vacates : Vacates I D name83 (some e) i O) (sound : I.Sound) (unique : I.UniqueNames)
    (dir : I.IsDir D) (found : I.lookup D name83 = some e) :
    Deleted I ((I.free O).putSlot (I.chain D) i e.deleted) D i name83 := by
  have w := vacates.delete_rewrites sound dir
  obtain ⟨gone, lookups, unique'⟩ := w.vacated sound unique dir e.deleted_isDead found vacates
  refine ⟨w.preserves_sound sound, unique', fun D' => ?_, lookups, w.sameFiles sound, ?_, w.shape, gone⟩
  · rw [w.isDir_iff sound]
    exact or_iff_left fun new => Named.not_of_dead e.deleted_isDead new.1
  · rw [putSlot_fat]
    refine if_neg fun member => ?_
    have := (vacates.inRange sound dir 0 member).2
    omega

end Image

end LaylaOS.Fs
