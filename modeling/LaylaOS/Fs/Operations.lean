/-
**The four writing operations as steps between volumes.**

`Write`, `Delete` and `Make` say what `WriteFile`, `DeleteFile` and `MakeDir` can do to a sound
volume, outcome by outcome, including every failure. The theorems `writeFile_spec`,
`deleteFile_spec` and `makeDir_spec` show that the driver always returns and does one of these.
-/

import LaylaOS.Fs.Staging

namespace LaylaOS.Fs

open LaylaOS.Lib

/-! ### New entries -/

section Entries

variable {name : List UInt8} (terminated : 0 ∉ name) (cluster size : Nat)

theorem fileEntry_isDirectory (name83 : Name) :
    (buildDirEntry name83 0x20 cluster size).isDirectory = false := by
  rw [DirEntry.isDirectory, buildDirEntry_attributes]
  rfl

include terminated

theorem builtEntry_isDead (attr : UInt8) : (buildDirEntry (toShortName name) attr cluster size).isDead =
      (toShortName name 0 == 0xE5) := by
  rw [DirEntry.isDead, buildDirEntry_first]
  simp [(toShortName_first terminated).1]

theorem builtEntry_named (attr : UInt8) (valid : toShortName name 0 ≠ 0xE5) :
    (buildDirEntry (toShortName name) attr cluster size).Named := by
  have noDot := (toShortName_first terminated).2
  refine ⟨by rw [builtEntry_isDead terminated]; simpa using valid, ?_, ?_⟩
  · rw [buildDirEntry_name]
    exact fun dot => noDot (by rw [dot]; rfl)
  · rw [buildDirEntry_name]
    exact fun dots => noDot (by rw [dots]; rfl)

end Entries

namespace Image

variable {I J : Image} {D i first : Nat} {name83 : Name} {old : Option DirEntry} {O : List Nat}
  {data : List UInt8}

/-- There are clusters for the data, and a slot or one more cluster for the entry. -/
def HasRoom (I : Image) (D : Nat) (old : Option DirEntry) (O : List Nat) (data : List UInt8) :
    Prop :=
  (I.free O).freeList ≠ [] ∧ data.length ≤ (I.free O).freeList.length * I.clusterSize ∧
    (old.isSome = true ∨ (I.slots D).any DirEntry.isDead = true ∨
      (data.length - 1) / I.clusterSize + 1 < (I.free O).freeList.length)

/-- Storing `data` under a name of the directory `D`; `i` and `O` are the slot and the chain that
are given up. It fails before anything is taken, in the middle of the data, or at the directory. -/
inductive Store (I : Image) (D : Nat) (name83 : Name) (data : List UInt8) (old : Option DirEntry)
    (i : Nat) (O : List Nat) : Image → Bool → Prop
  | full : ¬ I.HasRoom D old O data → (I.free O).freeList = [] →
      Store I D name83 data old i O (I.free O) false
  | short {first : Nat} {rest : List Nat} {J : Image} : ¬ I.HasRoom D old O data →
      (I.free O).freeList = first :: rest → (rest.length + 1) * I.clusterSize < data.length →
      Stored (I.free O) J first rest data → Store I D name83 data old i O J false
  | blocked {first : Nat} {rest : List Nat} {J : Image} : ¬ I.HasRoom D old O data → old = none →
      first ∈ (I.free O).freeList → Staged I J D i O first (first :: rest) →
      Store I D name83 data old i O J false
  | done {first m : Nat} {rest added : List Nat} {J I' : Image} : I.HasRoom D old O data →
      Staged I J D i O first (first :: rest) →
      ((first :: rest).flatMap J.bytesOf).take data.length = data → first < 2 ^ 32 →
      Inserted J I' D m (buildDirEntry name83 0x20 first data.length) added →
      Store I D name83 data old i O I' true

theorem Stored.of_setFat {value : Nat} {rest : List Nat}
    (stored : Stored (I.setFat first value) J first rest data) : Stored I J first rest data :=
  ⟨stored.shape, fun x outside => by
    rw [stored.fatFrame x outside, setFat_of_ne _ _ fun same => outside (by simp [same])],
    stored.dataFrame, stored.walk, stored.linked, stored.bytes⟩

theorem Staged.newcomer {L : List Nat} (attr : UInt8) (size : Nat) {name : List UInt8}
    (staged : Staged I J D i O first L) (terminated : 0 ∉ name) (word : first < 2 ^ 32)
    (short : attr ≠ 0x0F)
    (empty : (buildDirEntry (toShortName name) attr first size).isDirectory = true →
      InTable first ∧ Tidy (J.slots first) ∧ ∀ e' ∈ J.slots first, ¬ e'.Named) :
    Newcomer J (buildDirEntry (toShortName name) attr first size) where
  used := by
    rw [buildDirEntry_first]
    exact (toShortName_first terminated).1
  short _ := by
    rw [buildDirEntry_attributes]
    exact short
  strict _ := by
    rw [buildDirEntry_start _ _ _ _ word]
    exact staged.strict
  alone _ x member := by
    rw [buildDirEntry_start _ _ _ _ word, staged.chain] at member
    exact (staged.alone x member).2
  empty _ directory := by
    rw [buildDirEntry_start _ _ _ _ word]
    exact empty directory

/-- A file of the volume: its directory, slot and entry. -/
def IsFile (I : Image) (D i : Nat) (e : DirEntry) : Prop :=
  I.IsDir D ∧ (I.slots D)[i]? = some e ∧ e.Named ∧ e.isDirectory = false

/-- Every file was there before, with its links, or is the one that holds `data`, in no more clusters
than it needs. -/
def Adds (I I' : Image) (data : List UInt8) : Prop :=
  ∀ D i e, I'.IsFile D i e →
    (I.IsFile D i e ∧ ∀ x ∈ I.chain e.startCluster, I'.fat x = I.fat x) ∨
      (e.size = data.length ∧ InTable e.startCluster ∧ I'.Strict e.startCluster ∧
        (I'.chain e.startCluster).length ≤ (data.length - 1) / I.clusterSize + 1)

theorem Rewrites.isFile {I' : Image} {e : DirEntry} {added : List Nat}
    (w : Rewrites I I' D i e added) (sound : I.Sound) {D' j : Nat} {e' : DirEntry}
    (is : I'.IsFile D' j e') :
    (I.IsFile D' j e' ∧ I'.chain e'.startCluster = I.chain e'.startCluster ∧
        ∀ x ∈ I.chain e'.startCluster, I'.fat x = I.fat x) ∨
      e' = e := by
  obtain ⟨dir, slot, named, file⟩ := is
  rcases (w.isDir_iff sound).mp dir with old | ⟨new, directory, rfl⟩
  · by_cases here : (D', j) = (D, i)
    · cases here
      exact .inr ((w.here e' named.1).mp slot)
    · have slot := (w.slot_iff sound old here named.1).mp slot
      exact .inl ⟨⟨old, slot, named, file⟩, (w.contents_eq sound old slot named file here).2⟩
  · -- a directory that has just been made has no files
    exact absurd named ((w.empty new directory).2.2.2 e' (List.mem_of_getElem? slot))

theorem Staged.adds {I' : Image} {rest added : List Nat} {m : Nat}
    (staged : Staged I J D i O first (first :: rest)) (sound : I.Sound)
    (inserted : Inserted J I' D m (buildDirEntry name83 0x20 first data.length) added)
    (short : rest.length ≤ (data.length - 1) / I.clusterSize) (word : data.length < 2 ^ 32)
    (inTable : InTable first) : I.Adds I' data := by
  intro D' j e is
  obtain ⟨e₀, dead, w⟩ := staged.rewrites
  have start : (buildDirEntry name83 0x20 first data.length).startCluster = first :=
    buildDirEntry_start _ _ _ _ (lt_trans inTable.2 (by decide))
  rcases inserted.rewrites.isFile (staged.sound sound) is with ⟨between, -, kept⟩ | rfl
  · rcases w.isFile sound between with ⟨before, same, kept'⟩ | rfl
    · refine .inl ⟨before, fun x member => ?_⟩
      rw [kept x (same ▸ member), kept' x member]
    · exact absurd between.2.2.1 (Named.not_of_dead dead)
  · have named := is.2.2.1
    refine .inr ⟨buildDirEntry_size _ _ _ _ word, by rwa [start], inserted.strict named, ?_⟩
    rw [inserted.chain named, start, staged.chain, List.length_cons]
    exact Nat.succ_le_succ short

/-- `WriteFile` to a path with the components `names`. -/
inductive Write (I : Image) (names : List (List UInt8)) (data : List UInt8) : Image → Bool → Prop
  | unresolved : I.resolveParent I.root names = none → Write I names data I false
  | directory {D : Nat} {name : List UInt8} {e : DirEntry} :
      I.resolveParent I.root names = some (D, name) → I.lookup D (toShortName name) = some e →
      e.isDirectory = true → Write I names data I false
  | store {D i : Nat} {name : List UInt8} {old : Option DirEntry} {O : List Nat} {I' : Image}
      {b : Bool} : I.resolveParent I.root names = some (D, name) →
      I.lookup D (toShortName name) = old → Vacates I D (toShortName name) old i O →
      Store I D (toShortName name) data old i O I' b → Write I names data I' b

/-- `DeleteFile`. -/
inductive Delete (I : Image) (names : List (List UInt8)) : Image → Bool → Prop
  | unresolved : I.resolveParent I.root names = none → Delete I names I false
  | missing {D : Nat} {name : List UInt8} : I.resolveParent I.root names = some (D, name) →
      I.lookup D (toShortName name) = none → Delete I names I false
  | directory {D : Nat} {name : List UInt8} {e : DirEntry} :
      I.resolveParent I.root names = some (D, name) → I.lookup D (toShortName name) = some e →
      e.isDirectory = true → Delete I names I false
  | done {D i : Nat} {name : List UInt8} {e : DirEntry} {O : List Nat} :
      I.resolveParent I.root names = some (D, name) → I.lookup D (toShortName name) = some e →
      Vacates I D (toShortName name) (some e) i O →
      Delete I names ((I.free O).putSlot (I.chain D) i e.deleted) true

/-- The slots of a directory that has just been made. -/
def freshSlots (I : Image) (first parent : Nat) : List DirEntry :=
  buildDirEntry dotName 0x10 first 0 :: buildDirEntry dotDotName 0x10 parent 0 ::
    List.replicate (I.perCluster - 2) DirEntry.zero

/-- `MakeDir`. The entry is inserted whether or not the name exists. -/
inductive Make (I : Image) (names : List (List UInt8)) : Image → Bool → Prop
  | unresolved : I.resolveParent I.root names = none → Make I names I false
  | full {D : Nat} {name : List UInt8} : I.resolveParent I.root names = some (D, name) →
      I.freeList = [] → Make I names I false
  | blocked {D first : Nat} {name : List UInt8} {J : Image} :
      I.resolveParent I.root names = some (D, name) → I.freeList = [first] →
      (I.slots D).any DirEntry.isDead = false →
      Staged I J D (I.slots D).length [] first [first] → Make I names J false
  | done {D first m parent : Nat} {name : List UInt8} {added rest : List Nat} {J I' : Image} :
      I.resolveParent I.root names = some (D, name) → I.freeList = first :: rest →
      ((I.slots D).any DirEntry.isDead = true ∨ rest ≠ []) →
      Staged I J D (I.slots D).length [] first [first] →
      J.slots first = I.freshSlots first parent →
      Inserted J I' D m (buildDirEntry (toShortName name) 0x10 first 0) added →
      Make I names I' true

theorem freshSlots_tidy (I : Image) (first parent : Nat) : Tidy (I.freshSlots first parent) := by
  have zeros : ∀ e ∈ List.replicate (I.perCluster - 2) DirEntry.zero, e = DirEntry.zero :=
    fun e member => List.eq_of_mem_replicate member
  refine ⟨fun e member live => ?_, ?_⟩
  · rcases List.mem_cons.mp member with rfl | later
    · rw [buildDirEntry_attributes]
      decide
    · rcases List.mem_cons.mp later with rfl | padding
      · rw [buildDirEntry_attributes]
        decide
      · rw [zeros e padding] at live
        exact absurd live (by decide)
  · refine List.pairwise_cons.mpr ⟨fun e _ zero => ?_, List.pairwise_cons.mpr
      ⟨fun e _ zero => ?_, List.pairwise_replicate.mpr (.inr fun _ => rfl)⟩⟩
    · rw [buildDirEntry_first] at zero
      exact absurd zero (by decide)
    · rw [buildDirEntry_first] at zero
      exact absurd zero (by decide)

theorem freshSlots_unnamed {I : Image} {first parent : Nat} {e : DirEntry}
    (member : e ∈ I.freshSlots first parent) : ¬ e.Named := by
  intro named
  rcases List.mem_cons.mp member with rfl | later
  · exact named.2.1 (buildDirEntry_name ..)
  · rcases List.mem_cons.mp later with rfl | padding
    · exact named.2.2 (buildDirEntry_name ..)
    · rw [List.eq_of_mem_replicate padding] at named
      exact absurd named.1 (by decide)

theorem Stored.whole {rest : List Nat} {count : Nat}
    (stored : Stored I J first (rest.take ((data.length - 1) / I.clusterSize)) data)
    (counted : rest.length + 1 = count) (positive : 0 < I.clusterSize)
    (fits : data.length ≤ count * I.clusterSize) :
    ((first :: rest.take ((data.length - 1) / I.clusterSize)).flatMap J.bytesOf).take data.length = data := by
  rw [stored.bytes, List.take_of_length_le]
  rw [List.length_take]
  rcases Nat.le_total ((data.length - 1) / I.clusterSize) rest.length with few | all
  · rw [Nat.min_eq_left few, Nat.succ_mul]
    have := Nat.lt_div_mul_add positive (a := data.length - 1)
    omega
  · rw [Nat.min_eq_right all, counted]
    exact fits

end Image

namespace Volume

open Image

variable {v : Volume} {d : Disk} {I : Image} {D i : Nat} {old : Option DirEntry} {O : List Nat}
  {data : List UInt8} {name : List UInt8}

theorem markEntryDeleted_spec (g : v.Geometry) {J : Image} {e : DirEntry} (r : v.Represents d J)
    (sound : I.Sound) (dir : I.IsDir D) {name83 : Name}
    (vacates : Vacates I D name83 (some e) i O) (agrees : Agrees I J (some (D, i))) :
    ∃ d', v.markEntryDeleted d D name83 = some (d', true) ∧
      v.Represents d' (J.putSlot (I.chain D) i e.deleted) := by
  have a : Admits I J D i e.deleted := agrees.admits_dead dir vacates.file e.deleted_isDead
  obtain ⟨strict, chain, slots⟩ := a.directory sound
  obtain ⟨inTable, -⟩ := sound.directory D dir
  have length := length_le_of_nodup strict.walk.nodup fun x member => (strict.linked x member).1
  have limit := r.limit_lt g
  have tidy : Tidy (J.slotsOf (J.chain D)) := by
    rw [← Image.slots, slots]
    exact sound.tidy D dir
  rw [← chain]
  cases vacates with
  | old found slot named file =>
    rw [← slots] at found slot
    exact markEntryDeletedLoop_spec g r name83 ⟨strict.walk, strict.linked, inTable.1⟩ tidy
      (by unfold loopFuel; omega) found slot

theorem insert_new (g : v.Geometry) {J : Image} {first : Nat} {rest free : List Nat}
    (r : v.Represents d J) (sound : I.Sound) (dir : I.IsDir D) (terminated : 0 ∉ name)
    (vacates : Vacates I D (toShortName name) none i O) (inFree : first ∈ (I.free O).freeList)
    (stored : Stored (I.free O) J first rest data)
    (split : (I.free O).freeList = first :: rest ++ free)
    (rounds : rest.length ≤ (data.length - 1) / I.clusterSize ∧
      (free ≠ [] → rest.length = (data.length - 1) / I.clusterSize))
    (fits : data.length ≤ (I.free O).freeList.length * I.clusterSize)
    (whole : ((first :: rest).flatMap J.bytesOf).take data.length = data) (inTable : InTable first)
    (word : data.length < 2 ^ 32) :
    ∃ d' I' b, v.addDirEntry d D (buildDirEntry (toShortName name) 0x20 first data.length) = some (d', b) ∧
        v.Represents d' I' ∧ Store I D (toShortName name) data none i O I' b ∧
        (b = true → I.Adds I' data) := by
  have low : first < 2 ^ 32 := lt_trans inTable.2 (by decide)
  have taken : first :: rest ⊆ (I.free O).freeList := by
    rw [split]
    exact List.subset_append_left _ _
  have staged := vacates.staged_new sound dir stored taken
  have new := staged.newcomer 0x20 data.length terminated low (by decide)
    (by rw [fileEntry_isDirectory]; intro no; cases no)
  have slots : J.slots D = I.slots D :=
    ((vacates.stored_agrees sound dir stored taken).admits_dead (e := DirEntry.zero) dir
      vacates.file rfl).directory sound |>.2.2
  have nonempty : (I.free O).freeList ≠ [] := by simp [split]
  have count : (I.free O).freeList.length = rest.length + 1 + free.length := by
    rw [split, List.length_append, List.length_cons]
  rcases addDirEntry_cases g r (staged.sound sound) ((staged.isDir_iff sound).mpr dir) new with
    ⟨m, added, d', I', ran, r', inserted, space⟩ | ⟨ran, noneFree, full⟩
  · refine ⟨d', I', true, ran, r', .done ⟨nonempty, fits, .inr ?_⟩ staged whole low inserted,
      fun _ => staged.adds sound inserted rounds.1 word inTable⟩
    rw [slots, stored.freeList_eq split] at space
    rcases space with dead | more
    · refine .inl ?_
      rw [Ne, List.findIdx?_eq_none_iff] at dead
      push Not at dead
      obtain ⟨e, member, isDead⟩ := dead
      exact List.any_eq_true.mpr ⟨e, member, by simpa using isDead⟩
    · refine .inr ?_
      have := List.length_pos_of_ne_nil more
      have := rounds.2 more
      omega
  · refine ⟨d, J, false, ran, r, .blocked (fun room => ?_) rfl inFree staged, fun no => by cases no⟩
    rw [stored.freeList_eq split] at noneFree
    rw [slots, List.findIdx?_eq_none_iff] at full
    rcases room.2.2 with some | dead | more
    · cases some
    · obtain ⟨e, member, isDead⟩ := List.any_eq_true.mp dead
      rw [full e member] at isDead
      cases isDead
    · rw [noneFree, List.length_nil] at count
      omega

theorem insert_old (g : v.Geometry) {J : Image} {e : DirEntry} {first : Nat} {rest : List Nat}
    (r : v.Represents d (J.putSlot (I.chain D) i e.deleted)) (sound : I.Sound) (dir : I.IsDir D)
    (terminated : 0 ∉ name) (vacates : Vacates I D (toShortName name) (some e) i O)
    (stored : Stored (I.free O) J first rest data)
    (taken : first :: rest ⊆ (I.free O).freeList)
    (rounds : rest.length ≤ (data.length - 1) / I.clusterSize)
    (fits : data.length ≤ (I.free O).freeList.length * I.clusterSize)
    (whole : ((first :: rest).flatMap J.bytesOf).take data.length = data) (inTable : InTable first)
    (word : data.length < 2 ^ 32) :
    ∃ d' I', v.addDirEntry d D (buildDirEntry (toShortName name) 0x20 first data.length) = some (d', true) ∧
        v.Represents d' I' ∧ Store I D (toShortName name) data (some e) i O I' true ∧
        I.Adds I' data := by
  have low : first < 2 ^ 32 := lt_trans inTable.2 (by decide)
  have staged := vacates.staged_old sound dir stored taken
  obtain ⟨owner, owns, other⟩ := dir.owner_ne vacates.file
  have kept : ((first :: rest).flatMap (J.putSlot (I.chain D) i e.deleted).bytesOf).take
      data.length = data := by
    rw [← whole]
    congr 1
    · rw [whole]
    · refine List.flatMap_congr fun x member => ?_
      have outside : x ∉ I.chain D := fun inside =>
        vacates.taken_not_owned sound dir owns other inside (taken member)
      rw [bytesOf, bytesOf, putSlot_data outside, putSlot_toShape]
  have new := staged.newcomer 0x20 data.length terminated low (by decide)
    (by rw [fileEntry_isDirectory]; intro no; cases no)
  rcases addDirEntry_cases g r (staged.sound sound) ((staged.isDir_iff sound).mpr dir) new with
    ⟨m, added, d', I', ran, r', inserted, -⟩ | ⟨-, -, full⟩
  · refine ⟨d', I', ran, r', .done ⟨?_, fits, .inl rfl⟩ staged kept low inserted,
      staged.adds sound inserted rounds word inTable⟩
    exact List.ne_nil_of_mem (taken List.mem_cons_self)
  · -- the slot of the deleted entry is dead
    have a : Admits I J D i e.deleted :=
      (vacates.stored_agrees sound dir stored taken).admits_dead dir vacates.file e.deleted_isDead
    rw [(a.put_slots sound).2.2, List.findIdx?_eq_none_iff] at full
    have dead := full e.deleted (List.mem_set vacates.slot.2.2 _)
    rw [e.deleted_isDead] at dead
    cases dead

theorem writeFresh_spec (g : v.Geometry) {J : Image} {first : Nat} {rest : List Nat}
    (r : v.Represents d J) (free : J.freeList = first :: rest) (word : data.length < 2 ^ 32) :
    ∃ d' J', v.writeClusterChain (v.setFATEntry d first 0x0FFFFFFF) first data =
        some (d', decide (data.length ≤ (rest.length + 1) * J.clusterSize)) ∧ v.Represents d' J' ∧
      Stored J J' first (rest.take ((data.length - 1) / J.clusterSize)) data ∧ 3 ≤ first ∧
      InTable first := by
  have limit := r.limit_lt g
  have inFree : first ∈ J.freeList := free ▸ List.mem_cons_self
  obtain ⟨low, high, -⟩ := mem_freeList.mp inFree
  have marked : v.Represents (v.setFATEntry d first 0x0FFFFFFF) _ := r.setFATEntry g high (by decide)
  obtain ⟨d', J', ran, r', stored⟩ := writeClusterChain_spec g marked low high (setFat_self ..) word
  rw [freeList_setFat free (by decide),
    show (J.setFat first 0x0FFFFFFF).clusterSize = J.clusterSize from rfl] at ran stored
  exact ⟨d', J', ran, r', stored.of_setFat, low, by omega, by unfold endOfChain; omega⟩

theorem storeFile_spec (g : v.Geometry) (r : v.Represents d (I.free O)) (sound : I.Sound)
    (dir : I.IsDir D) (terminated : 0 ∉ name)
    (vacates : Vacates I D (toShortName name) old i O) (word : data.length < 2 ^ 32) :
    ∃ d' I' b, v.storeFile d D (toShortName name) old.isSome data = some (d', b) ∧
      v.Represents d' I' ∧ Store I D (toShortName name) data old i O I' b ∧
      (b = true → I.Adds I' data) := by
  unfold storeFile
  rw [r.allocCluster_eq g]
  cases free : (I.free O).freeList with
  | nil =>
    exact ⟨d, _, false, if_pos rfl, r, .full (fun room => room.1 free) free, fun no => by cases no⟩
  | cons first rest =>
    have inFree : first ∈ (I.free O).freeList := free ▸ List.mem_cons_self
    obtain ⟨d₂, J, ran, r₂, stored, low, inTable⟩ := writeFresh_spec g r free word
    rw [show (I.free O).clusterSize = I.clusterSize from rfl] at ran stored
    have rounds : (rest.take ((data.length - 1) / I.clusterSize)).length ≤
        (data.length - 1) / I.clusterSize := List.length_take_le _ _
    have size : 0 < I.clusterSize := by
      have := g.clusterSize_eq.2.2
      rw [r.clusterSize_eq] at this
      exact lt_of_lt_of_le (by decide) this
    have taken : first :: rest.take ((data.length - 1) / I.clusterSize) ⊆ (I.free O).freeList := by
      rw [free]
      exact List.cons_subset_cons _ (List.take_subset _ _)
    rw [List.headD_cons, if_neg (by omega), ran]
    simp only [Option.bind_eq_bind, Option.bind_some, Bool.not_eq_eq_eq_not, Bool.not_true,
      decide_eq_false_iff_not]
    by_cases fits : data.length ≤ (rest.length + 1) * I.clusterSize
    · rw [if_neg (not_not.mpr fits)]
      have whole := stored.whole rfl size fits
      have count : (I.free O).freeList.length = rest.length + 1 := by rw [free]; rfl
      cases old with
      | none =>
        have split : (I.free O).freeList = first :: rest.take ((data.length - 1) / I.clusterSize) ++
              rest.drop ((data.length - 1) / I.clusterSize) := by
          rw [free, List.cons_append, List.take_append_drop]
        refine insert_new g r₂ sound dir terminated vacates inFree stored split ⟨rounds, ?_⟩
          (count ▸ fits) whole inTable word
        intro more
        rw [Ne, List.drop_eq_nil_iff] at more
        exact List.length_take_of_le (by omega)
      | some e =>
        obtain ⟨d₃, marked, r₃⟩ := markEntryDeleted_spec g r₂ sound dir vacates
          (vacates.stored_agrees sound dir stored taken)
        obtain ⟨d', I', added, r', store, adds⟩ := insert_old g r₃ sound dir terminated vacates
          stored taken rounds (count ▸ fits) whole inTable word
        refine ⟨d', I', true, ?_, r', store, fun _ => adds⟩
        simp only [Option.isSome_some, if_true, marked, Option.map_eq_map, Option.map_some, Option.bind_some]
        exact added
    · rw [if_pos fits]
      have all : rest.take ((data.length - 1) / I.clusterSize) = rest := by
        refine List.take_of_length_le ?_
        rw [Nat.le_div_iff_mul_le size]
        rw [Nat.succ_mul] at fits
        omega
      rw [all] at stored
      refine ⟨d₂, J, false, rfl, r₂, .short (fun room => fits ?_) free (by omega) stored, fun no => by cases no⟩
      have enough := room.2.1
      rw [free] at enough
      exact enough

section Calls

variable (g : v.Geometry) (r : v.Represents d I) (sound : I.Sound) (path : CString)
include g r sound

theorem freeChain_spec {o : Option (Nat × Nat)} {c : Nat} (owns : I.Owns o c) :
    ∃ d', v.freeChainLoop loopFuel d c = some d' ∧ v.Represents d' (I.free (I.chain c)) := by
  have loose := sound.chained o c owns
  have length := length_le_of_nodup loose.walk.nodup fun x member => (loose.used x member).1
  have limit := r.limit_lt g
  exact freeChainLoop_spec g r loose.walk (fun x member => (loose.used x member).1) (by unfold loopFuel; omega)

omit g r sound in
theorem parent_isDir {name : List UInt8}
    (found : I.resolveParent I.root (parentComponents path) = some (D, name)) :
    I.IsDir D ∧ 0 ∉ name := by
  obtain ⟨dir, last⟩ := resolveParent_isDir .root (parentComponents_terminated path) found
  exact ⟨dir, parentComponents_terminated path name (List.mem_of_getLast? last)⟩

/-- **`WriteFile` returns, does what `Write` says, and adds one file** if it returns true. -/
theorem writeFile_adds (word : data.length < 2 ^ 32) :
    ∃ d' I' b, v.writeFile d path data = some (d', b) ∧ v.Represents d' I' ∧
      Write I (parentComponents path) data I' b ∧ (b = true → I.Adds I' data) := by
  rw [writeFile, resolveParentDir_spec g r sound]
  cases found : I.resolveParent I.root (parentComponents path) with
  | none => exact ⟨d, I, false, rfl, r, .unresolved found, fun no => by cases no⟩
  | some target =>
    obtain ⟨D, name⟩ := target
    obtain ⟨dir, terminated⟩ := parent_isDir path found
    simp only [Option.bind_eq_bind, Option.bind_some, writeFileIn]
    rw [findEntry_spec g r sound dir]
    cases entry : I.lookup D (toShortName name) with
    | none =>
      have none : I.free [] = I := by simp [Image.free]
      obtain ⟨d', I', b, ran, r', store, adds⟩ := storeFile_spec g (none.symm ▸ r) sound dir
        terminated .new word
      exact ⟨d', I', b, ran, r', .store found entry .new store, adds⟩
    | some e =>
      cases directory : e.isDirectory with
      | true =>
        exact ⟨d, I, false, by simp [directory], r, .directory found entry directory, fun no => by cases no⟩
      | false =>
        obtain ⟨i, vacates⟩ := vacates_of_lookup terminated entry directory
        obtain ⟨d₁, freed, r₁⟩ := freeChain_spec g r sound
          (.entry dir vacates.slot.1 (lookup_named terminated entry))
        obtain ⟨d', I', b, ran, r', store, adds⟩ := storeFile_spec g r₁ sound dir terminated vacates word
        refine ⟨d', I', b, ?_, r', .store found entry vacates store, adds⟩
        simp only [Option.bind_some, directory, Bool.false_eq_true, if_false, freed]
        exact ran

theorem writeFile_spec (word : data.length < 2 ^ 32) :
    ∃ d' I' b, v.writeFile d path data = some (d', b) ∧ v.Represents d' I' ∧
      Write I (parentComponents path) data I' b := by
  obtain ⟨d', I', b, ran, r', write, -⟩ := writeFile_adds g r sound path word
  exact ⟨d', I', b, ran, r', write⟩

theorem deleteFile_spec : ∃ d' I' b, v.deleteFile d path = some (d', b) ∧ v.Represents d' I' ∧
      Delete I (parentComponents path) I' b := by
  rw [deleteFile, resolveParentDir_spec g r sound]
  cases found : I.resolveParent I.root (parentComponents path) with
  | none => exact ⟨d, I, false, rfl, r, .unresolved found⟩
  | some target =>
    obtain ⟨D, name⟩ := target
    obtain ⟨dir, terminated⟩ := parent_isDir path found
    simp only [Option.bind_eq_bind, Option.bind_some]
    rw [findEntry_spec g r sound dir]
    cases entry : I.lookup D (toShortName name) with
    | none => exact ⟨d, I, false, rfl, r, .missing found entry⟩
    | some e =>
      cases directory : e.isDirectory with
      | true => exact ⟨d, I, false, by simp [directory], r, .directory found entry directory⟩
      | false =>
        obtain ⟨i, vacates⟩ := vacates_of_lookup terminated entry directory
        obtain ⟨d₁, freed, r₁⟩ := freeChain_spec g r sound
          (.entry dir vacates.slot.1 (lookup_named terminated entry))
        obtain ⟨d', marked, r'⟩ := markEntryDeleted_spec g r₁ sound dir vacates
          (vacates.agrees (L := []) sound dir rfl (List.nil_subset _) (fun _ _ => rfl) fun _ _ => rfl)
        refine ⟨d', _, true, ?_, r', .done found entry vacates⟩
        simp only [Option.bind_some, directory, Bool.false_eq_true, if_false, freed]
        exact marked

omit sound in
theorem makeDir_stored (parent : Nat) {first : Nat} (inFree : first ∈ I.freeList) :
    v.Represents (v.writeCluster (v.setFATEntry d first 0x0FFFFFFF) first (v.newDirectory first parent))
        ((I.setFat first 0x0FFFFFFF).setData first (v.newDirectory first parent)) ∧
      Stored (I.free []) ((I.setFat first 0x0FFFFFFF).setData first
        (v.newDirectory first parent)) first [] [] := by
  obtain ⟨low, high, -⟩ := mem_freeList.mp inFree
  have limit := r.limit_lt g
  have room := r.room g
  have marked : v.Represents (v.setFATEntry d first 0x0FFFFFFF) _ := r.setFATEntry g high (by decide)
  have wrote := marked.writeCluster g (by omega) high (v.newDirectory first parent)
  have whole : v.clip (v.newDirectory first parent) = v.newDirectory first parent :=
    r.clip_putEntry _ (by omega) fun k past => by
      unfold perCluster at room
      rw [putEntry, if_neg (by omega)]
  rw [whole] at wrote
  have none : I.free [] = I := by simp [Image.free]
  rw [none]
  refine ⟨wrote, rfl, fun x outside => ?_, fun x outside => ?_, ⟨rfl, ⟨?_, ?_⟩, ?_⟩,
    fun x member => ?_, by simp⟩
  · exact setFat_of_ne _ _ (by simpa using outside)
  · exact setData_of_ne _ _ (by simpa using outside)
  · omega
  · unfold endOfChain
    omega
  · show ¬ InTable ((I.setFat first 0x0FFFFFFF).fat first)
    rw [setFat_self]
    decide
  · rw [List.mem_singleton.mp member, setData_fat, setFat_self]
    omega

omit sound in
theorem makeDir_slots (parent : Nat) {first : Nat} (inFree : first ∈ I.freeList) :
    ∃ parent', ((I.setFat first 0x0FFFFFFF).setData first
      (v.newDirectory first parent)).slots first = I.freshSlots first parent' := by
  obtain ⟨-, stored⟩ := makeDir_stored g r parent inFree
  have none : I.free [] = I := by simp [Image.free]
  have chain := (stored.linked_chain (by simpa [none] using inFree)).2
  obtain ⟨count, more⟩ : ∃ count, I.perCluster = count + 1 + 1 := ⟨I.perCluster - 2, by have := r.room g; omega⟩
  refine ⟨if parent = v.bpb.rootCluster then 0 else parent, ?_⟩
  rw [Image.slots, chain, slotsOf_cons, setData_self]
  show entriesOf I.perCluster _ ++ [] = _
  rw [List.append_nil, newDirectory, entriesOf_putEntry, entriesOf_putEntry, entriesOf_zeros, freshSlots, more]
  rfl

theorem makeDir_spec : ∃ d' I' b, v.makeDir d path = some (d', b) ∧ v.Represents d' I' ∧
      Make I (parentComponents path) I' b := by
  rw [makeDir, resolveParentDir_spec g r sound]
  cases found : I.resolveParent I.root (parentComponents path) with
  | none => exact ⟨d, I, false, rfl, r, .unresolved found⟩
  | some target =>
    obtain ⟨D, name⟩ := target
    obtain ⟨dir, terminated⟩ := parent_isDir path found
    simp only [Option.bind_eq_bind, Option.bind_some]
    rw [r.allocCluster_eq g]
    cases free : I.freeList with
    | nil => exact ⟨d, I, false, by simp, r, .full found free⟩
    | cons first rest =>
      have inFree : first ∈ I.freeList := by rw [free]; exact List.mem_cons_self
      obtain ⟨low, high, -⟩ := mem_freeList.mp inFree
      have limit := r.limit_lt g
      have none : I.free [] = I := by simp [Image.free]
      obtain ⟨r₁, stored⟩ := makeDir_stored g r D inFree
      obtain ⟨parent, fresh⟩ := makeDir_slots g r D inFree
      have vacates : Vacates I D (toShortName name) Option.none (I.slots D).length [] := .new
      have taken : [first] ⊆ (I.free []).freeList := by simpa [none] using inFree
      have staged := vacates.staged_new sound dir stored taken
      have new := staged.newcomer 0x10 0 terminated (by omega) (by decide) fun _ =>
        ⟨⟨by omega, by unfold endOfChain; omega⟩, fresh ▸ freshSlots_tidy I first parent,
          fun e' member => freshSlots_unnamed (fresh ▸ member)⟩
      have slots := ((vacates.stored_agrees sound dir stored taken).admits_dead
        (e := DirEntry.zero) dir vacates.file rfl).directory sound |>.2.2
      have left := stored.freeList_eq (show (I.free []).freeList = [first] ++ rest by
        rw [none, free]; rfl)
      rw [List.headD_cons, if_neg (by omega)]
      rcases addDirEntry_cases g r₁ (staged.sound sound) ((staged.isDir_iff sound).mpr dir) new
        with ⟨m, added, d', I', ran, r', inserted, space⟩ | ⟨ran, noneFree, full⟩
      · refine ⟨d', I', true, ran, r', .done found free ?_ staged fresh inserted⟩
        rw [slots, left] at space
        refine space.imp_left fun dead => ?_
        rw [Ne, List.findIdx?_eq_none_iff] at dead
        push Not at dead
        obtain ⟨e, member, isDead⟩ := dead
        exact List.any_eq_true.mpr ⟨e, member, by simpa using isDead⟩
      · rw [left] at noneFree
        rw [slots, List.findIdx?_eq_none_iff] at full
        rw [noneFree] at free
        refine ⟨_, _, false, ran, r₁, .blocked found free ?_ staged⟩
        rw [List.any_eq_false]
        intro e member dead
        rw [full e member] at dead
        cases dead

end Calls

end Volume

end LaylaOS.Fs
