/-
**Inserting an entry into a directory.**

`AddDirEntry` on a sound volume, for an entry whose chain has been written but belongs to nobody
yet (`Newcomer`): it stores the entry in a slot that was dead (`Inserted`), or fails because the
directory is full and no cluster is free.
-/

import LaylaOS.Fs.Effects

namespace LaylaOS.Fs

open LaylaOS.Lib

namespace Image

variable {J I' : Image} {D m : Nat} {e : DirEntry} {added : List Nat}

theorem Agrees.refl (J : Image) (o₀ : Option (Nat × Nat)) : Agrees J J o₀ :=
  ⟨rfl, fun _ _ _ _ _ _ => ⟨rfl, rfl⟩⟩

/-- An entry that may be inserted: if it is live, its chain is complete and meets no other, and a
directory is still empty. -/
structure Newcomer (J : Image) (e : DirEntry) : Prop where
  used : e.first ≠ 0
  short : e.isDead = false → e.attributes ≠ 0x0F
  strict : e.Named → J.Strict e.startCluster
  alone : e.Named → ∀ x ∈ J.chain e.startCluster, ¬ J.Used x
  empty : e.Named → e.isDirectory = true → InTable e.startCluster ∧
    Tidy (J.slots e.startCluster) ∧ ∀ e' ∈ J.slots e.startCluster, ¬ e'.Named

/-- The entry `e` has been stored in slot `m`, which was dead. -/
structure Inserted (J I' : Image) (D m : Nat) (e : DirEntry) (added : List Nat) : Prop where
  rewrites : Rewrites J I' D m e added
  vacant : ∀ old, (J.slots D)[m]? = some old → old.isDead = true
  zero_iff : ∀ x, 3 ≤ x → (I'.fat x = 0 ↔ J.fat x = 0 ∧ x ∉ added)
  fatZero : I'.fat 0 = J.fat 0
  strict : e.Named → I'.Strict e.startCluster
  chain : e.Named → I'.chain e.startCluster = J.chain e.startCluster
  data : e.Named → ∀ x ∈ J.chain e.startCluster, I'.data x = J.data x

theorem Newcomer.admits (new : Newcomer J e) (dir : J.IsDir D)
    (vacant : ∀ old, (J.slots D)[m]? = some old → old.isDead = true) : Admits J J D m e where
  dir := dir
  agrees := .refl J _
  file old slot named := by
    have live := named.1
    rw [vacant old slot] at live
    cases live
  loose named := (new.strict named).loose
  alone named x member o c owns _ inside := new.alone named x member ⟨o, c, owns, inside⟩
  empty named directory :=
    have ⟨inTable, tidy, unnamed⟩ := new.empty named directory
    ⟨inTable, new.strict named, tidy, unnamed⟩

theorem Newcomer.put (new : Newcomer J e) (sound : J.Sound) (dir : J.IsDir D)
    (free : (J.slots D).findIdx? DirEntry.isDead = some m) :
    Inserted J (J.putSlot (J.chain D) m e) D m e [] := by
  obtain ⟨inside, dead, front⟩ := List.findIdx?_eq_some_iff_getElem.mp free
  have vacant : ∀ old, (J.slots D)[m]? = some old → old.isDead = true := by
    intro old slot
    obtain ⟨_, same⟩ := List.getElem?_eq_some_iff.mp slot
    exact same ▸ dead
  have a := new.admits dir vacant
  have tidy : Tidy ((J.slots D).set m e) := by
    refine (sound.tidy D dir).set new.used new.short fun j before e' slot zero => ?_
    obtain ⟨_, same⟩ := List.getElem?_eq_some_iff.mp slot
    exact front j before (same ▸ DirEntry.isDead_iff.mpr (.inl zero))
  refine ⟨a.put_rewrites sound inside tidy, vacant, fun x _ => by simp, by rw [putSlot_fat],
    fun named => ?_, fun named => (a.put_own named).2.1,
    fun named x member => ((a.put_own named).2.2 x member).2⟩
  exact ((new.strict named).chain_congr (putSlot_toShape (J.chain D) m e) fun x member =>
    ((a.put_own named).2.2 x member).1).1

theorem Newcomer.grow (new : Newcomer J e) (sound : J.Sound) (dir : J.IsDir D)
    (full : (J.slots D).findIdx? DirEntry.isDead = none) {before : List Nat} {last fresh : Nat}
    (ends : J.chain D = before ++ [last]) (free : fresh ∈ J.freeList)
    (limit : J.limit ≤ endOfChain) (room : 0 < J.perCluster) :
    Inserted J (J.grow last fresh e) D (J.slots D).length e [fresh] := by
  have vacant : ∀ old, (J.slots D)[(J.slots D).length]? = some old → old.isDead = true := by
    intro old slot
    rw [List.getElem?_eq_none le_rfl] at slot
    cases slot
  have a := new.admits dir vacant
  have inside : last ∈ J.chain D := by simp [ends]
  obtain ⟨low, -, zero⟩ := mem_freeList.mp free
  have linked := ((sound.directory D dir).2.linked last inside).2
  have different : last ≠ fresh := by
    rintro rfl
    omega
  have tidy := (sound.tidy D dir).grow (J.perCluster - 1) full new.short
  refine ⟨a.grow_rewrites sound ends free limit room tidy, vacant, fun x above => ?_, ?_,
    fun named => ?_, fun named => (a.grow_own inside free named).2.1,
    fun named x member => ((a.grow_own inside free named).2.2 x member).2.2⟩
  · by_cases isFresh : x = fresh
    · simp [isFresh, Image.grow]
    · by_cases isLast : x = last
      · rw [isLast, Image.grow, setData_fat, setFat_of_ne _ _ different, setFat_self]
        omega
      · rw [grow_fat_of_ne isLast isFresh]
        simp [isFresh]
  · have notZero : (0 : Nat) ≠ last := by
      rintro rfl
      have inTable := (sound.directory D dir).2.walk.mem_inside inside
      unfold InTable at inTable
      omega
    exact grow_fat_of_ne notZero (by omega)
  · exact ((new.strict named).chain_congr (grow_toShape J last fresh e) fun x member =>
      ((a.grow_own inside free named).2.2 x member).2.1).1

end Image

namespace Volume

open Image

variable {v : Volume} {d : Disk} {J : Image}

/-- **`AddDirEntry` inserts the entry, or the directory is full and no cluster is free.** -/
theorem addDirEntry_cases (g : v.Geometry) (r : v.Represents d J) (sound : J.Sound) {D : Nat}
    (dir : J.IsDir D) {e : DirEntry} (new : Newcomer J e) :
    (∃ m added d' I', v.addDirEntry d D e = some (d', true) ∧ v.Represents d' I' ∧ Inserted J I' D m e added ∧
        ((J.slots D).findIdx? DirEntry.isDead ≠ none ∨ J.freeList ≠ [])) ∨
      (v.addDirEntry d D e = some (d, false) ∧ J.freeList = [] ∧
        (J.slots D).findIdx? DirEntry.isDead = none) := by
  obtain ⟨segment, enough⟩ := segment g r sound dir
  obtain ⟨inTable, strict⟩ := sound.directory D dir
  have limit : J.limit ≤ endOfChain := by
    have bound := g.limit_lt
    rw [r.limit_eq] at bound
    unfold endOfChain
    omega
  have first := strict.walk.start_mem inTable
  have positive : 0 < J.limit := by
    have := (strict.linked D first).1
    omega
  rcases addDirEntryLoop_spec g r e segment enough positive with
    ⟨m, d', dead, ran, r'⟩ | ⟨full, none, ran⟩ | ⟨fresh, rest, d', full, free, ran, r'⟩
  · exact .inl ⟨m, [], d', _, ran, r', new.put sound dir dead,
      .inl (by rw [Image.slots, dead]; exact Option.some_ne_none m)⟩
  · exact .inr ⟨ran, none, full⟩
  · have nonempty : J.chain D ≠ [] := List.ne_nil_of_mem first
    have ends : J.chain D = (J.chain D).dropLast ++ [(J.chain D).getLast nonempty] :=
      (List.dropLast_append_getLast nonempty).symm
    rw [List.getLast_cons nonempty] at r'
    exact .inl ⟨_, [fresh], d', _, ran, r', new.grow sound dir full ends
      (by rw [free]; exact List.mem_cons_self) limit (by have := r.room g; omega),
      .inr (by simp [free])⟩

end Volume

end LaylaOS.Fs
