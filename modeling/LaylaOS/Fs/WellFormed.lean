/-
**Well-formed volumes.**

`Regular` collects what a volume in good order satisfies beyond soundness: complete chains that are
long enough, distinct names, and start clusters that are on the volume. It quantifies over the whole
directory tree; `Layout` is a finite check, given the list of directories, and `Layout.regular`
shows that it suffices.
-/

import LaylaOS.Fs.Outcome

namespace LaylaOS.Fs

open LaylaOS.Lib

namespace Image

variable {I : Image}

/-- A volume in good order. -/
structure Regular (I : Image) : Prop where
  sound : I.Sound
  strict : I.AllStrict
  unique : I.UniqueNames
  starts : ∀ D (i : Nat) e, I.IsDir D → (I.slots D)[i]? = some e → e.Named →
    InTable e.startCluster ∨ (e.startCluster = 0 ∧ e.size = 0 ∧ e.isDirectory = false)
  sized : ∀ D (i : Nat) e, I.IsDir D → (I.slots D)[i]? = some e → e.Named →
    e.size ≤ (I.chain e.startCluster).length * I.clusterSize
  mark : endOfChain ≤ I.fat 0

theorem Regular.readable (regular : I.Regular) {D i : Nat} {e : DirEntry} (dir : I.IsDir D)
    (slot : (I.slots D)[i]? = some e) (named : e.Named) : I.Readable e := by
  rcases regular.starts D i e dir slot named with inTable | ⟨zero, empty, -⟩
  · exact .inl ⟨inTable, regular.strict _ _ (.entry dir slot named)⟩
  · exact .inr ⟨zero, regular.mark, empty⟩

theorem resolve_slot {names : List (List UInt8)} (terminated : ∀ n ∈ names, 0 ∉ n)
    {e : DirEntry} (found : I.resolve I.root names = some e) :
    ∃ D, ∃ j : Nat, I.IsDir D ∧ (I.slots D)[j]? = some e ∧ e.Named := by
  rw [resolve_eq, Option.bind_eq_some_iff] at found
  obtain ⟨⟨D, last⟩, parent, entry⟩ := found
  obtain ⟨dir, ends⟩ := resolveParent_isDir .root terminated parent
  obtain ⟨j, slot⟩ := List.mem_iff_getElem?.mp (lookup_mem entry).1
  exact ⟨D, j, dir, slot, lookup_named (terminated last (List.mem_of_getLast? ends)) entry⟩

/-! ### A finite check -/

instance (I : Image) (c : Nat) : Decidable (I.Strict c) :=
  decidable_of_iff (Walk I.fat InTable c (I.chain c) ∧
    ∀ x ∈ I.chain c, x < I.limit ∧ 2 ≤ I.fat x) ⟨fun h => ⟨h.1, h.2⟩, fun h => ⟨h.walk, h.linked⟩⟩

-- a scan of the list, though entries are a finite type
instance (slots : List DirEntry) : Decidable (Tidy slots) :=
  haveI : Decidable (∀ e ∈ slots, e.isDead = false → e.attributes ≠ 0x0F) := List.decidableBAll _ _
  decidable_of_iff ((∀ e ∈ slots, e.isDead = false → e.attributes ≠ 0x0F) ∧
    slots.Pairwise fun e later => e.first = 0 → later.first = 0)
    ⟨fun h => ⟨h.1, h.2⟩, fun h => ⟨h.short, h.ends⟩⟩

/-- The live entries of the given directories other than `.` and `..`, with their places. -/
def entries (I : Image) (dirs : List Nat) : List ((Nat × Nat) × DirEntry) :=
  dirs.flatMap fun D => ((I.slots D).zipIdx.filter fun slot => slot.1.Named).map fun slot =>
    ((D, slot.2), slot.1)

/-- The owners of chains, if `dirs` are the directories. -/
def owners (I : Image) (dirs : List Nat) : List (Option (Nat × Nat) × Nat) :=
  (none, I.root) :: (I.entries dirs).map fun entry => (some entry.1, entry.2.startCluster)

/-- `dirs` are the directories of the volume, and it is in good order. -/
structure Layout (I : Image) (dirs : List Nat) : Prop where
  root : I.root ∈ dirs
  closed : ∀ entry ∈ I.entries dirs, entry.2.isDirectory = true → entry.2.startCluster ∈ dirs
  directory : ∀ D ∈ dirs, InTable D ∧ I.Strict D ∧ Tidy (I.slots D)
  strict : ∀ owner ∈ I.owners dirs, I.Strict owner.2
  apart : ∀ owner ∈ I.owners dirs, ∀ owner' ∈ I.owners dirs, owner.1 ≠ owner'.1 →
    ∀ x ∈ I.chain owner.2, x ∉ I.chain owner'.2
  unique : ∀ D ∈ dirs, ((I.slots D).filter fun e => !e.isDead).Pairwise fun e e' => e.name ≠ e'.name
  starts : ∀ entry ∈ I.entries dirs, InTable entry.2.startCluster ∨
    (entry.2.startCluster = 0 ∧ entry.2.size = 0 ∧ entry.2.isDirectory = false)
  sized : ∀ entry ∈ I.entries dirs,
    entry.2.size ≤ (I.chain entry.2.startCluster).length * I.clusterSize
  mark : endOfChain ≤ I.fat 0

instance (I : Image) (dirs : List Nat) : Decidable (I.Layout dirs) :=
  decidable_of_iff (I.root ∈ dirs ∧
      (∀ entry ∈ I.entries dirs, entry.2.isDirectory = true → entry.2.startCluster ∈ dirs) ∧
      (∀ D ∈ dirs, InTable D ∧ I.Strict D ∧ Tidy (I.slots D)) ∧
      (∀ owner ∈ I.owners dirs, I.Strict owner.2) ∧
      (∀ owner ∈ I.owners dirs, ∀ owner' ∈ I.owners dirs, owner.1 ≠ owner'.1 →
        ∀ x ∈ I.chain owner.2, x ∉ I.chain owner'.2) ∧
      (∀ D ∈ dirs, ((I.slots D).filter fun e => !e.isDead).Pairwise fun e e' => e.name ≠ e'.name) ∧
      (∀ entry ∈ I.entries dirs, InTable entry.2.startCluster ∨
        (entry.2.startCluster = 0 ∧ entry.2.size = 0 ∧ entry.2.isDirectory = false)) ∧
      (∀ entry ∈ I.entries dirs,
        entry.2.size ≤ (I.chain entry.2.startCluster).length * I.clusterSize) ∧
      endOfChain ≤ I.fat 0)
    ⟨fun ⟨h₁, h₂, h₃, h₄, h₅, h₆, h₇, h₈, h₉⟩ => ⟨h₁, h₂, h₃, h₄, h₅, h₆, h₇, h₈, h₉⟩,
      fun ⟨h₁, h₂, h₃, h₄, h₅, h₆, h₇, h₈, h₉⟩ => ⟨h₁, h₂, h₃, h₄, h₅, h₆, h₇, h₈, h₉⟩⟩

theorem mem_entries {dirs : List Nat} {D i : Nat} {e : DirEntry} (member : D ∈ dirs)
    (slot : (I.slots D)[i]? = some e) (named : e.Named) : ((D, i), e) ∈ I.entries dirs := by
  refine List.mem_flatMap.mpr ⟨D, member, List.mem_map.mpr ⟨(e, i), ?_, rfl⟩⟩
  exact List.mem_filter.mpr ⟨List.mem_zipIdx_iff_getElem?.mpr slot, by simpa using named⟩

namespace Layout

variable {dirs : List Nat} (layout : I.Layout dirs)
include layout

theorem isDir_mem {D : Nat} (dir : I.IsDir D) : D ∈ dirs := by
  induction dir with
  | root => exact layout.root
  | @child D e _ member named directory ih =>
    obtain ⟨i, slot⟩ := List.mem_iff_getElem?.mp member
    exact layout.closed ((D, i), e) (mem_entries ih slot named) directory

theorem owns_mem {o : Option (Nat × Nat)} {c : Nat} (owns : I.Owns o c) : (o, c) ∈ I.owners dirs := by
  cases owns with
  | root => exact List.mem_cons_self
  | @entry D i e dir slot named =>
    exact List.mem_cons_of_mem _ (List.mem_map.mpr
      ⟨((D, i), e), mem_entries (layout.isDir_mem dir) slot named, rfl⟩)

theorem regular : I.Regular where
  sound :=
    { directory := fun D dir =>
        have ⟨inTable, strict, _⟩ := layout.directory D (layout.isDir_mem dir)
        ⟨inTable, strict⟩
      chained := fun o c owns => (layout.strict _ (layout.owns_mem owns)).loose
      apart := by
        intro o c o' c' x owns owns' member member'
        by_contra different
        exact layout.apart _ (layout.owns_mem owns) _ (layout.owns_mem owns') different x member member'
      tidy := fun D dir => (layout.directory D (layout.isDir_mem dir)).2.2 }
  strict o c owns := layout.strict _ (layout.owns_mem owns)
  unique := by
    intro D dir i j e e' first second live live' same
    have distinct := List.pairwise_iff_getElem.mp
      (List.pairwise_filter.mp (layout.unique D (layout.isDir_mem dir)))
    obtain ⟨inside, here⟩ := List.getElem?_eq_some_iff.mp first
    obtain ⟨inside', here'⟩ := List.getElem?_eq_some_iff.mp second
    by_contra different
    rcases Nat.lt_or_gt_of_ne different with less | more
    · exact distinct i j inside inside' less (by simp [here, live]) (by simp [here', live'])
        (by rw [here, here', same])
    · exact distinct j i inside' inside more (by simp [here', live']) (by simp [here, live])
        (by rw [here, here', same])
  starts D i e dir slot named := layout.starts ((D, i), e) (mem_entries (layout.isDir_mem dir) slot named)
  sized D i e dir slot named := layout.sized ((D, i), e) (mem_entries (layout.isDir_mem dir) slot named)
  mark := layout.mark

end Layout

end Image

/-- **A well-formed volume**: no regions overlap, the FAT copies are identical, and the volume is
in good order. -/
structure Volume.WellFormed (v : Volume) (d : Disk) : Prop where
  geometry : v.Geometry
  synced : v.Synced d
  regular : (v.image d).Regular

theorem Volume.WellFormed.represents {v : Volume} {d : Disk} (wf : v.WellFormed d) :
    v.Represents d (v.image d) := ⟨wf.synced, rfl⟩

theorem Volume.WellFormed.write {v : Volume} {d d' : Disk} (wf : v.WellFormed d) (path : CString)
    {data : List UInt8} {b : Bool} (word : data.length < 2 ^ 32)
    (written : v.writeFile d path data = some (d', b)) :
    ∃ I', v.Represents d' I' ∧ (v.image d).Write (parentComponents path) data I' b := by
  obtain ⟨d₁, I', b', ran, r', write⟩ := writeFile_spec wf.geometry wf.represents wf.regular.sound path word
  rw [ran] at written
  cases written
  exact ⟨I', r', write⟩

theorem Volume.WellFormed.readBack_eq {v : Volume} {d : Disk} (wf : v.WellFormed d) (q : CString) :
    v.readBack d q = some ((v.image d).fileAt (pathComponents q)) := by
  refine readBack_spec wf.geometry wf.represents wf.regular.sound q fun e found _ => ?_
  obtain ⟨D, j, dir, slot, named⟩ := Image.resolve_slot (pathComponents_terminated q) found
  exact wf.regular.readable dir slot named

/-! ### A small volume -/

/-- One sector a cluster, one FAT copy of one sector, clusters 2 to 7, root directory at 2. -/
def sample : Volume where
  partitionLba := 0
  bpb :=
    { bytesPerSector := 512
      sectorsPerCluster := 1
      reservedSectors := 1
      fatCount := 1
      totalSectors16 := 8
      totalSectors32 := 0
      fatSize32 := 1
      rootCluster := 2 }

/-- A disk with the sample volume, formatted: FAT entries 0 to 2 are end marks, all else is 0. -/
def blank : Disk := fun lba k =>
  if lba = 1 ∧ k < 12 then (if k % 4 = 3 then 0x0F else 0xFF) else 0

-- the empty path, and the paths `A` and `A/B`
theorem empty_terminated : (0 : UInt8) ∉ [] := List.not_mem_nil

theorem letter_terminated : (0 : UInt8) ∉ [65] := by decide

theorem nested_terminated : (0 : UInt8) ∉ [65, 47, 66] := by decide

theorem three_short : [(1 : UInt8), 2, 3].length < 2 ^ 32 := by decide

theorem sample_geometry : sample.Geometry := ⟨⟨rfl, by decide, .inl rfl, by decide, by decide⟩, by decide⟩

theorem sample_wellFormed {d : Disk} (dirs : List Nat) (layout : (sample.image d).Layout dirs) :
    sample.WellFormed d :=
  ⟨sample_geometry, fun two => absurd two (by decide), layout.regular⟩

theorem exists_result {call : Option (Disk × Bool)} {b : Bool} (ran : call.map Prod.snd = some b) :
    ∃ d', call = some (d', b) := by
  obtain ⟨⟨d', b'⟩, same, rfl⟩ := Option.map_eq_some_iff.mp ran
  exact ⟨d', same⟩

theorem blank_wellFormed : sample.WellFormed blank := sample_wellFormed [2] (by decide +kernel)

/-- The sample volume with the file `A`. -/
def withLetter : Disk :=
  ((sample.writeFile blank ⟨[65], letter_terminated⟩ [1, 2, 3]).getD (blank, false)).1

theorem withLetter_wellFormed : sample.WellFormed withLetter := sample_wellFormed [2] (by decide +kernel)

end LaylaOS.Fs
