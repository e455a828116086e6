/-
**Preparing a new file or directory.**

Before `WriteFile` and `MakeDir` insert an entry they free the chain of the entry they replace,
fill clusters that were free, and mark the replaced entry as deleted. `Vacates` describes the slot
that is given up, `Staged` the volume in between: sound, with a complete chain that has no owner
yet.
-/

import LaylaOS.Fs.Insert

namespace LaylaOS.Fs

open LaylaOS.Lib

namespace Image

variable {I J : Image} {D i first : Nat} {name83 : Name} {old : Option DirEntry} {O L : List Nat}

/-- What is given up for a new entry: nothing, or the file entry `e` of the name, in slot `i`, with
its chain `O`. -/
inductive Vacates (I : Image) (D : Nat) (name83 : Name) : Option DirEntry → Nat → List Nat → Prop
  | new : Vacates I D name83 none (I.slots D).length []
  | old {e : DirEntry} {i : Nat} : (I.slots D).findIdx? (Matches name83) = some i →
      (I.slots D)[i]? = some e → e.Named → e.isDirectory = false →
      Vacates I D name83 (some e) i (I.chain e.startCluster)

theorem vacates_of_lookup {name : List UInt8} {e : DirEntry} (terminated : 0 ∉ name)
    (found : I.lookup D (toShortName name) = some e) (file : e.isDirectory = false) :
    ∃ i, Vacates I D (toShortName name) (some e) i (I.chain e.startCluster) := by
  have named := lookup_named terminated found
  rw [lookup, List.find?_eq_bind_findIdx?_getElem?, Option.bind_eq_some_iff] at found
  obtain ⟨i, position, slot⟩ := found
  exact ⟨i, .old position slot named file⟩

namespace Vacates

variable (vacates : Vacates I D name83 old i O)
include vacates

theorem file : ∀ e, (I.slots D)[i]? = some e → e.Named → e.isDirectory = false := by
  intro e slot _
  cases vacates with
  | new =>
    rw [List.getElem?_eq_none le_rfl] at slot
    cases slot
  | old _ slot' _ file =>
    rw [slot'] at slot
    cases slot
    exact file

omit vacates in
theorem new_slot (vacates : Vacates I D name83 none i O) (e : DirEntry) (live : e.isDead = false) :
    (I.slots D)[i]? = some e ↔ e = DirEntry.zero := by
  cases vacates with
  | new =>
    rw [List.getElem?_eq_none le_rfl]
    refine ⟨fun none => (by cases none), fun zero => ?_⟩
    rw [zero] at live
    exact absurd live (by decide)

omit vacates in
theorem slot {e : DirEntry} (vacates : Vacates I D name83 (some e) i O) :
    (I.slots D)[i]? = some e ∧ e.isDead = false ∧ i < (I.slots D).length := by
  cases vacates with
  | old _ slot named _ => exact ⟨slot, named.1, (List.getElem?_eq_some_iff.mp slot).1⟩

omit vacates in
theorem tidy_deleted {e : DirEntry} (vacates : Vacates I D name83 (some e) i O)
    (tidy : Tidy (I.slots D)) : Tidy ((I.slots D).set i e.deleted) := by
  obtain ⟨slot, live, inside⟩ := vacates.slot
  have same := (List.getElem?_eq_some_iff.mp slot).2
  refine tidy.set (show (0xE5 : UInt8) ≠ 0 by decide) (fun alive => ?_) fun j before e' slot' zero => ?_
  · rw [e.deleted_isDead] at alive
    cases alive
  · -- a 0x00 slot in front would make the slot of the live entry a 0x00 slot
    obtain ⟨inside', same'⟩ := List.getElem?_eq_some_iff.mp slot'
    have ends := List.pairwise_iff_getElem.mp tidy.ends j i inside' inside before
    rw [same, same'] at ends
    rw [DirEntry.isDead_iff.mpr (.inl (ends zero))] at live
    cases live

variable (sound : I.Sound) (dir : I.IsDir D)
include sound dir

theorem not_owned {o : Option (Nat × Nat)} {c x : Nat} (owns : I.Owns o c)
    (other : o ≠ some (D, i)) (member : x ∈ I.chain c) : x ∉ O := by
  intro inside
  cases vacates with
  | new => exact absurd inside List.not_mem_nil
  | old _ slot named _ =>
    exact other (sound.apart _ _ _ _ x owns (.entry dir slot named) member inside)

theorem inRange : ∀ x ∈ O, x < I.limit ∧ 2 ≤ x := by
  intro x inside
  cases vacates with
  | new => exact absurd inside List.not_mem_nil
  | old _ slot named _ =>
    have loose := sound.chained _ _ (.entry dir slot named)
    exact ⟨(loose.used x inside).1, (loose.walk.mem_inside inside).1⟩

theorem taken_not_owned {o : Option (Nat × Nat)} {c x : Nat} (owns : I.Owns o c)
    (other : o ≠ some (D, i)) (member : x ∈ I.chain c) : x ∉ (I.free O).freeList := by
  intro taken
  obtain ⟨low, -, zero⟩ := mem_freeList.mp taken
  have kept : (I.free O).fat x = I.fat x := if_neg (vacates.not_owned sound dir owns other member)
  rw [kept] at zero
  rcases ((sound.chained o c owns).used x member).2 with two | used
  · omega
  · exact used zero

theorem agrees (shape : J.toShape = I.toShape) (taken : L ⊆ (I.free O).freeList)
    (fatFrame : ∀ x ∉ L, J.fat x = (I.free O).fat x) (dataFrame : ∀ x ∉ L, J.data x = I.data x) :
    Agrees I J (some (D, i)) := by
  refine ⟨shape, fun o c owns other x member => ?_⟩
  have outside : x ∉ L := fun inside =>
    vacates.taken_not_owned sound dir owns other member (taken inside)
  rw [fatFrame x outside, dataFrame x outside]
  exact ⟨if_neg (vacates.not_owned sound dir owns other member), rfl⟩

end Vacates

/-- The volume is ready for a new entry: slot `i` of `D` is dead, the chain `O` is free, and the
clusters `L` form a complete chain from `first` on that has no owner. -/
structure Staged (I J : Image) (D i : Nat) (O : List Nat) (first : Nat) (L : List Nat) :
    Prop where
  rewrites : ∃ e₀ : DirEntry, e₀.isDead = true ∧ Rewrites I J D i e₀ []
  strict : J.Strict first
  chain : J.chain first = L
  alone : ∀ x ∈ L, 3 ≤ x ∧ ¬ J.Used x
  zero_iff : ∀ x, J.fat x = 0 ↔ (I.fat x = 0 ∨ x ∈ O) ∧ x ∉ L
  fatZero : J.fat 0 = I.fat 0

theorem Staged.sound (staged : Staged I J D i O first L) (sound : I.Sound) : J.Sound := by
  obtain ⟨_, -, w⟩ := staged.rewrites
  exact w.preserves_sound sound

theorem Staged.isDir_iff (staged : Staged I J D i O first L) (sound : I.Sound) {D' : Nat} :
    J.IsDir D' ↔ I.IsDir D' := by
  obtain ⟨e₀, dead, w⟩ := staged.rewrites
  rw [w.isDir_iff sound]
  refine or_iff_left fun new => ?_
  have live := new.1.1
  rw [dead] at live
  cases live

theorem Stored.linked_chain {rest : List Nat} {data : List UInt8} (stored : Stored (I.free O) J first rest data)
    (taken : first :: rest ⊆ (I.free O).freeList) :
    J.Strict first ∧ J.chain first = first :: rest := by
  refine Strict.of_walk stored.walk fun x member => ⟨?_, stored.linked x member⟩
  rw [stored.shape]
  exact (mem_freeList.mp (taken member)).2.1

theorem free_zero_iff (fatFrame : ∀ x ∉ L, J.fat x = (I.free O).fat x)
    (linked : ∀ x ∈ L, 2 ≤ J.fat x) (x : Nat) :
    J.fat x = 0 ↔ (I.fat x = 0 ∨ x ∈ O) ∧ x ∉ L := by
  by_cases member : x ∈ L
  · have used := linked x member
    simp only [member, not_true_eq_false, and_false, iff_false]
    omega
  · rw [fatFrame x member]
    show (if x ∈ O then 0 else I.fat x) = 0 ↔ _
    by_cases freed : x ∈ O <;> simp [freed, member]

theorem Stored.freeList_eq {rest free : List Nat} {data : List UInt8}
    (stored : Stored (I.free O) J first rest data)
    (split : (I.free O).freeList = first :: rest ++ free) : J.freeList = free := by
  have nodup : (I.free O).freeList.Nodup := List.nodup_range.filter _
  rw [split] at nodup
  have filtered : J.freeList = (I.free O).freeList.filter (· ∉ first :: rest) := by
    unfold freeList
    rw [List.filter_filter, stored.shape]
    refine List.filter_congr fun x _ => ?_
    by_cases member : x ∈ first :: rest
    · have linked := stored.linked x member
      have used : J.fat x ≠ 0 := by omega
      simp only [used, member]
      simp
    · rw [stored.fatFrame x member]
      simp only [member]
      simp
  rw [filtered, split, List.filter_append, List.filter_eq_nil_iff.mpr, List.nil_append, List.filter_eq_self]
  · intro x member
    have apart := (List.nodup_append.mp nodup).2.2
    exact decide_eq_true fun inside => apart x inside x member rfl
  · intro x member outside
    exact of_decide_eq_true outside member

theorem Named.not_of_dead {e : DirEntry} (dead : e.isDead = true) : ¬ e.Named := by
  intro named
  have live := named.1
  rw [dead] at live
  cases live

theorem Agrees.admits_dead {e : DirEntry} (agrees : Agrees I J (some (D, i))) (dir : I.IsDir D)
    (file : ∀ old, (I.slots D)[i]? = some old → old.Named → old.isDirectory = false)
    (dead : e.isDead = true) : Admits I J D i e where
  dir := dir
  agrees := agrees
  file := file
  loose named := absurd named (Named.not_of_dead dead)
  alone named := absurd named (Named.not_of_dead dead)
  empty named := absurd named (Named.not_of_dead dead)

section Stage

variable {rest : List Nat} {data : List UInt8} (vacates : Vacates I D name83 old i O)
  (sound : I.Sound) (dir : I.IsDir D)
include sound dir

theorem Vacates.staged (vacates : Vacates I D name83 old i O) {J' : Image} {e₀ : DirEntry}
    (stored : Stored (I.free O) J first rest data) (taken : first :: rest ⊆ (I.free O).freeList)
    (dead : e₀.isDead = true) (w : Rewrites I J' D i e₀ []) (shape : J'.toShape = J.toShape)
    (fat : J'.fat = J.fat) : Staged I J' D i O first (first :: rest) := by
  obtain ⟨strict, chain⟩ := stored.linked_chain taken
  obtain ⟨strict', chain'⟩ := strict.chain_congr shape fun x _ => congrFun fat x
  refine ⟨⟨e₀, dead, w⟩, strict', chain'.trans chain, fun x member => ⟨?_, fun used => ?_⟩,
    fun x => by rw [fat]; exact free_zero_iff stored.fatFrame stored.linked x, ?_⟩
  · exact (mem_freeList.mp (taken member)).1
  · rcases (w.used_iff sound).mp used with ⟨o, c, owns, other, inside⟩ | none | ⟨named, -⟩
    · exact vacates.taken_not_owned sound dir owns other inside (taken member)
    · exact absurd none List.not_mem_nil
    · exact Named.not_of_dead dead named
  · have outside : 0 ∉ first :: rest := fun member => by
      have := (mem_freeList.mp (taken member)).1
      omega
    have kept : 0 ∉ O := fun member => by
      have := (vacates.inRange sound dir 0 member).2
      omega
    rw [fat, stored.fatFrame 0 outside]
    exact if_neg kept

theorem Vacates.stored_agrees (vacates : Vacates I D name83 old i O)
    (stored : Stored (I.free O) J first rest data)
    (taken : first :: rest ⊆ (I.free O).freeList) : Agrees I J (some (D, i)) :=
  vacates.agrees sound dir stored.shape taken stored.fatFrame stored.dataFrame

theorem Vacates.staged_new (vacates : Vacates I D name83 none i O)
    (stored : Stored (I.free O) J first rest data)
    (taken : first :: rest ⊆ (I.free O).freeList) :
    Staged I J D i O first (first :: rest) := by
  have a : Admits I J D i DirEntry.zero :=
    (vacates.stored_agrees sound dir stored taken).admits_dead dir vacates.file rfl
  exact vacates.staged sound dir stored taken rfl (a.keep_rewrites sound vacates.new_slot) rfl rfl

theorem Vacates.staged_old {e : DirEntry} (vacates : Vacates I D name83 (some e) i O)
    (stored : Stored (I.free O) J first rest data)
    (taken : first :: rest ⊆ (I.free O).freeList) :
    Staged I (J.putSlot (I.chain D) i e.deleted) D i O first (first :: rest) := by
  have a : Admits I J D i e.deleted :=
    (vacates.stored_agrees sound dir stored taken).admits_dead dir vacates.file e.deleted_isDead
  exact vacates.staged sound dir stored taken e.deleted_isDead
    (a.put_rewrites sound vacates.slot.2.2 (vacates.tidy_deleted (sound.tidy D dir)))
    (putSlot_toShape ..) (putSlot_fat ..)

end Stage

end Image

end LaylaOS.Fs
