/-
**How the driver comes to rewrite one slot.**

An operation first frees and fills clusters that belong to no chain, or to the chain of the one
entry it replaces (`Agrees`), and then touches the directory in one of three ways: not at all
(`keep_rewrites`), by storing an entry in a slot (`put_rewrites`), or by appending a cluster
(`grow_rewrites`).
-/

import LaylaOS.Fs.Tree

namespace LaylaOS.Fs

open LaylaOS.Lib

theorem Tidy.set {slots : List DirEntry} (tidy : Tidy slots) {i : Nat} {e : DirEntry}
    (used : e.first ≠ 0) (short : e.isDead = false → e.attributes ≠ 0x0F)
    (front : ∀ j < i, ∀ e', slots[j]? = some e' → e'.first ≠ 0) : Tidy (slots.set i e) := by
  refine ⟨fun e' member live => ?_, List.pairwise_iff_getElem.mpr ?_⟩
  · rcases List.mem_or_eq_of_mem_set member with old | rfl
    · exact tidy.short e' old live
    · exact short live
  · intro a b first second less zero
    rw [List.length_set] at first second
    rw [List.getElem_set] at zero ⊢
    by_cases here : i = a
    · rw [if_pos here] at zero
      exact absurd zero used
    · rw [if_neg here] at zero
      by_cases there : i = b
      · exact absurd zero (front a (by omega) _ (List.getElem?_eq_getElem first))
      · rw [if_neg there]
        exact List.pairwise_iff_getElem.mp tidy.ends a b first second less zero

theorem Tidy.grow {slots : List DirEntry} (tidy : Tidy slots) {e : DirEntry} (count : Nat)
    (full : slots.findIdx? DirEntry.isDead = none)
    (short : e.isDead = false → e.attributes ≠ 0x0F) :
    Tidy (slots ++ e :: List.replicate count DirEntry.zero) := by
  have live : ∀ e' ∈ slots, e'.isDead = false := List.findIdx?_eq_none_iff.mp full
  have zeros : ∀ e' ∈ List.replicate count DirEntry.zero, e' = DirEntry.zero :=
    fun e' member => List.eq_of_mem_replicate member
  refine ⟨fun e' member alive => ?_, List.pairwise_append.mpr ⟨tidy.ends, ?_, ?_⟩⟩
  · rcases List.mem_append.mp member with old | new
    · exact tidy.short e' old alive
    · rcases List.mem_cons.mp new with rfl | padding
      · exact short alive
      · rw [zeros e' padding] at alive
        exact absurd alive (by decide)
  · refine List.pairwise_cons.mpr ⟨fun e' member _ => by rw [zeros e' member]; rfl, ?_⟩
    exact List.pairwise_replicate.mpr (.inr fun _ => rfl)
  · intro e' member _ _ zero
    have dead : e'.isDead = true := DirEntry.isDead_iff.mpr (.inl zero)
    rw [live e' member] at dead
    cases dead

namespace Image

variable {I J : Image} {D i : Nat} {e : DirEntry}

theorem Owns.unique {o : Option (Nat × Nat)} {c c' : Nat} (owns : I.Owns o c)
    (owns' : I.Owns o c') : c = c' := by
  cases owns with
  | root =>
    cases owns'
    rfl
  | entry _ slot _ =>
    cases owns' with
    | entry _ slot' _ =>
      rw [slot] at slot'
      cases slot'
      rfl

/-- `J` differs from `I` only in clusters that belong to no owner or to `o₀`. -/
structure Agrees (I J : Image) (o₀ : Option (Nat × Nat)) : Prop where
  shape : J.toShape = I.toShape
  frame : ∀ o c, I.Owns o c → o ≠ o₀ → ∀ x ∈ I.chain c, J.fat x = I.fat x ∧ J.data x = I.data x

/-- The slot `i` of the directory `D` may be rewritten to `e` in `J`: it holds no directory entry,
and a chain that starts at `e` meets no other. -/
structure Admits (I J : Image) (D i : Nat) (e : DirEntry) : Prop where
  dir : I.IsDir D
  agrees : Agrees I J (some (D, i))
  file : ∀ old, (I.slots D)[i]? = some old → old.Named → old.isDirectory = false
  loose : e.Named → J.Loose e.startCluster
  alone : e.Named → ∀ x ∈ J.chain e.startCluster,
    ∀ o c, I.Owns o c → o ≠ some (D, i) → x ∉ I.chain c
  empty : e.Named → e.isDirectory = true → InTable e.startCluster ∧ J.Strict e.startCluster ∧
    Tidy (J.slots e.startCluster) ∧ ∀ e' ∈ J.slots e.startCluster, ¬ e'.Named

theorem Agrees.directory (agrees : Agrees I J (some (D, i))) (sound : I.Sound)
    (file : ∀ old, (I.slots D)[i]? = some old → old.Named → old.isDirectory = false) {D' : Nat}
    (dir : I.IsDir D') : J.Strict D' ∧ J.chain D' = I.chain D' ∧ J.slots D' = I.slots D' := by
  obtain ⟨o, owns, other⟩ := dir.owner_ne file
  have frame := agrees.frame o D' owns other
  obtain ⟨strict, same⟩ := (sound.directory D' dir).2.chain_congr agrees.shape
    fun x member => (frame x member).1
  refine ⟨strict, same, ?_⟩
  rw [slots, slots, same]
  exact slotsOf_congr agrees.shape fun x member => (frame x member).2

namespace Admits

variable (a : Admits I J D i e) (sound : I.Sound)
include a sound

theorem directory : J.Strict D ∧ J.chain D = I.chain D ∧ J.slots D = I.slots D :=
  a.agrees.directory sound a.file a.dir

theorem not_mem_directory {o : Option (Nat × Nat)} {c x : Nat} (owns : I.Owns o c) (other : c ≠ D)
    (member : x ∈ I.chain c) : x ∉ I.chain D := by
  intro inside
  obtain ⟨o', owns', -⟩ := a.dir.owner_ne a.file
  obtain rfl := sound.apart o c o' D x owns owns' member inside
  exact other (owns.unique owns')

omit sound in
theorem not_mem_of_named (named : e.Named) {x : Nat} (member : x ∈ J.chain e.startCluster) : x ∉ I.chain D := by
  obtain ⟨o, owns, other⟩ := a.dir.owner_ne a.file
  exact a.alone named x member o D owns other

theorem keep_rewrites (kept : ∀ e' : DirEntry, e'.isDead = false → ((I.slots D)[i]? = some e' ↔ e' = e)) :
    Rewrites I J D i e [] := by
  obtain ⟨strict, chain, slots⟩ := a.directory sound
  refine ⟨a.dir, a.agrees.shape, strict, by rw [chain, List.append_nil], ?_, ?_, ?_, a.file, ?_, ?_,
    a.loose, ?_, a.empty⟩
  · rw [slots]
    exact sound.tidy D a.dir
  · rw [slots]
    exact kept
  · intro j _ e' _
    rw [slots]
  · intro o c owns other _
    exact a.agrees.frame o c owns other
  · intro x member
    exact absurd member List.not_mem_nil
  · intro named x member
    exact ⟨List.not_mem_nil, a.alone named x member⟩

omit sound in
theorem put_own (named : e.Named) : (J.putSlot (I.chain D) i e).Loose e.startCluster ∧
    (J.putSlot (I.chain D) i e).chain e.startCluster = J.chain e.startCluster ∧
    ∀ x ∈ J.chain e.startCluster, (J.putSlot (I.chain D) i e).fat x = J.fat x ∧
      (J.putSlot (I.chain D) i e).data x = J.data x := by
  have same : ∀ x ∈ J.chain e.startCluster, (J.putSlot (I.chain D) i e).fat x = J.fat x :=
    fun x _ => congrFun (putSlot_fat (I.chain D) i e) x
  obtain ⟨loose, chain⟩ := (a.loose named).chain_congr (putSlot_toShape (I.chain D) i e) same
  exact ⟨loose, chain, fun x member => ⟨same x member, putSlot_data (a.not_mem_of_named named member) _ _⟩⟩

theorem put_slots : (J.putSlot (I.chain D) i e).Strict D ∧ (J.putSlot (I.chain D) i e).chain D = I.chain D ∧
    (J.putSlot (I.chain D) i e).slots D = (I.slots D).set i e := by
  obtain ⟨strict, chain, slots⟩ := a.directory sound
  have nodup : (I.chain D).Nodup := (sound.directory D a.dir).2.walk.nodup
  obtain ⟨strict', chain'⟩ := strict.chain_congr (putSlot_toShape (I.chain D) i e)
    fun x _ => congrFun (putSlot_fat (I.chain D) i e) x
  refine ⟨strict', chain'.trans chain, ?_⟩
  rw [Image.slots, chain', chain, slotsOf_putSlot nodup, ← slots, Image.slots, chain]

theorem put_rewrites (inside : i < (I.slots D).length) (tidy : Tidy ((I.slots D).set i e)) :
    Rewrites I (J.putSlot (I.chain D) i e) D i e [] := by
  obtain ⟨strict', chain', slots'⟩ := a.put_slots sound
  refine ⟨a.dir, (putSlot_toShape ..).trans a.agrees.shape, strict',
    by rw [chain', List.append_nil], slots' ▸ tidy, ?_, ?_, a.file, ?_, ?_,
    fun named => (a.put_own named).1, ?_, ?_⟩
  · intro e' _
    rw [slots', List.getElem?_set_self inside, Option.some.injEq, eq_comm]
  · intro j other e' _
    rw [slots', List.getElem?_set_ne (Ne.symm other)]
  · intro o c owns other different x member
    rw [putSlot_fat, putSlot_data (a.not_mem_directory sound owns different member)]
    exact a.agrees.frame o c owns other x member
  · intro x member
    exact absurd member List.not_mem_nil
  · intro named x member
    rw [(a.put_own named).2.1] at member
    exact ⟨List.not_mem_nil, a.alone named x member⟩
  · intro named directory
    obtain ⟨inTable, strictNew, tidyNew, unnamed⟩ := a.empty named directory
    obtain ⟨-, chainNew, untouched⟩ := a.put_own named
    have slotsNew : (J.putSlot (I.chain D) i e).slots e.startCluster = J.slots e.startCluster := by
      rw [Image.slots, chainNew]
      exact slotsOf_congr (putSlot_toShape ..) fun x member => (untouched x member).2
    refine ⟨inTable, ?_, slotsNew ▸ tidyNew, slotsNew ▸ unnamed⟩
    exact (strictNew.chain_congr (putSlot_toShape (I.chain D) i e) fun x member =>
      (untouched x member).1).1

end Admits

section Grow

variable {last fresh x : Nat}

theorem grow_toShape (J : Image) (last fresh : Nat) (e : DirEntry) :
    (J.grow last fresh e).toShape = J.toShape := rfl

theorem grow_fat_of_ne (notLast : x ≠ last) (notFresh : x ≠ fresh) : (J.grow last fresh e).fat x = J.fat x := by
  rw [grow, setData_fat, setFat_of_ne _ _ notFresh, setFat_of_ne _ _ notLast]

theorem grow_data_of_ne (notFresh : x ≠ fresh) : (J.grow last fresh e).data x = J.data x :=
  setData_of_ne _ _ notFresh

theorem strict_grow {before : List Nat} (strict : J.Strict D) (ends : J.chain D = before ++ [last])
    (free : fresh ∈ J.freeList) (limit : J.limit ≤ endOfChain) :
    (J.grow last fresh e).Strict D ∧ (J.grow last fresh e).chain D = J.chain D ++ [fresh] := by
  obtain ⟨low, high, zero⟩ := mem_freeList.mp free
  have nodup := strict.walk.nodup
  have linked := strict.linked
  have walk := strict.walk
  rw [ends] at nodup linked walk
  have notFresh : ∀ y ∈ before ++ [last], y ≠ fresh := by
    intro y member same
    have next := (linked y member).2
    rw [same, zero] at next
    omega
  have notLast : ∀ y ∈ before, y ≠ last := fun y member same =>
    (List.nodup_append.mp nodup).2.2 y member last List.mem_cons_self same
  have lastNotFresh := notFresh last (by simp)
  have onward : (J.grow last fresh e).fat last = fresh := by
    rw [grow, setData_fat, setFat_of_ne _ _ lastNotFresh, setFat_self]
  have mark : (J.grow last fresh e).fat fresh = 0x0FFFFFFF := setFat_self ..
  have whole : Walk (J.grow last fresh e).fat InTable D (before ++ last :: [fresh]) := by
    refine walk.splice (fun y member => grow_fat_of_ne (notLast y member)
      (notFresh y (List.mem_append_left _ member))) ?_
    rw [onward]
    refine ⟨rfl, ⟨by omega, by omega⟩, ?_⟩
    show ¬ InTable ((J.grow last fresh e).fat fresh)
    rw [mark]
    unfold InTable endOfChain
    omega
  rw [ends, List.append_assoc]
  refine Strict.of_walk whole fun y member => ?_
  show y < J.limit ∧ _
  rcases List.mem_append.mp member with front | back
  · rw [grow_fat_of_ne (notLast y front) (notFresh y (List.mem_append_left _ front))]
    exact linked y (List.mem_append_left _ front)
  · rcases List.mem_cons.mp back with rfl | new
    · exact ⟨(linked y (by simp)).1, by rw [onward]; omega⟩
    · rw [List.mem_singleton.mp new, mark]
      exact ⟨high, by omega⟩

theorem Agrees.free_not_owned {o o₀ : Option (Nat × Nat)} {c : Nat} (agrees : Agrees I J o₀)
    (sound : I.Sound) (owns : I.Owns o c) (other : o ≠ o₀) (free : fresh ∈ J.freeList) :
    fresh ∉ I.chain c := by
  intro member
  obtain ⟨low, -, zero⟩ := mem_freeList.mp free
  rw [(agrees.frame o c owns other fresh member).1] at zero
  rcases ((sound.chained o c owns).used fresh member).2 with two | used
  · omega
  · exact used zero

theorem Admits.grow_own (a : Admits I J D i e) (inside : last ∈ I.chain D)
    (free : fresh ∈ J.freeList) (named : e.Named) :
    (J.grow last fresh e).Loose e.startCluster ∧
    (J.grow last fresh e).chain e.startCluster = J.chain e.startCluster ∧
    ∀ x ∈ J.chain e.startCluster, x ≠ fresh ∧ (J.grow last fresh e).fat x = J.fat x ∧
      (J.grow last fresh e).data x = J.data x := by
  obtain ⟨low, -, zero⟩ := mem_freeList.mp free
  have untouched : ∀ x ∈ J.chain e.startCluster, x ≠ fresh ∧
      (J.grow last fresh e).fat x = J.fat x ∧ (J.grow last fresh e).data x = J.data x := by
    intro x member
    have notFresh : x ≠ fresh := by
      intro same
      rcases ((a.loose named).used x member).2 with two | used
      · omega
      · exact used (same ▸ zero)
    have notLast : x ≠ last := fun same => a.not_mem_of_named named member (same ▸ inside)
    exact ⟨notFresh, grow_fat_of_ne notLast notFresh, grow_data_of_ne notFresh⟩
  obtain ⟨loose, chain⟩ := (a.loose named).chain_congr (grow_toShape J last fresh e)
    fun x member => (untouched x member).2.1
  exact ⟨loose, chain, untouched⟩

theorem Admits.grow_rewrites {before : List Nat} (a : Admits I J D (I.slots D).length e)
    (sound : I.Sound) (ends : I.chain D = before ++ [last]) (free : fresh ∈ J.freeList)
    (limit : I.limit ≤ endOfChain) (room : 0 < I.perCluster)
    (tidy : Tidy (I.slots D ++ e :: List.replicate (I.perCluster - 1) DirEntry.zero)) :
    Rewrites I (J.grow last fresh e) D (I.slots D).length e [fresh] := by
  obtain ⟨strict, chain, slots⟩ := a.directory sound
  have shape := a.agrees.shape
  have notOwned : ∀ o c, I.Owns o c → o ≠ some (D, (I.slots D).length) → fresh ∉ I.chain c :=
    fun o c owns other => a.agrees.free_not_owned sound owns other free
  have lastInside : last ∈ I.chain D := by simp [ends]
  obtain ⟨strict', chain'⟩ := strict_grow (e := e) strict (chain.trans ends) free (by rw [shape]; exact limit)
  have slots' : (J.grow last fresh e).slots D =
      I.slots D ++ e :: List.replicate (I.perCluster - 1) DirEntry.zero := by
    obtain ⟨o, owns, other⟩ := a.dir.owner_ne a.file
    rw [Image.slots, chain', slotsOf_grow (by rw [chain]; exact notOwned o D owns other) e
      (by rw [perCluster_congr shape]; exact room), ← slots, perCluster_congr shape]
    rfl
  refine ⟨a.dir, shape, strict', by rw [chain', chain], slots' ▸ tidy, ?_, ?_, ?_, ?_, ?_,
    fun named => (a.grow_own lastInside free named).1, ?_, ?_⟩
  · intro e' _
    rw [slots', List.getElem?_append_right le_rfl, Nat.sub_self, List.getElem?_cons_zero,
      Option.some.injEq, eq_comm]
  · intro j other e' live
    rw [slots']
    by_cases old : j < (I.slots D).length
    · rw [List.getElem?_append_left old]
    · rw [List.getElem?_append_right (by omega), List.getElem?_eq_none (by omega : _ ≤ j)]
      refine ⟨fun new => ?_, fun none => by cases none⟩
      obtain ⟨k, position⟩ : ∃ k, j - (I.slots D).length = k + 1 := ⟨j - (I.slots D).length - 1, by omega⟩
      rw [position, List.getElem?_cons_succ] at new
      rw [List.eq_of_mem_replicate (List.mem_of_getElem? new)] at live
      exact absurd live (by decide)
  · intro old slot
    rw [List.getElem?_eq_none le_rfl] at slot
    cases slot
  · intro o c owns other different x member
    have notFresh : x ≠ fresh := fun same => notOwned o c owns other (same ▸ member)
    have notLast : x ≠ last := fun same =>
      a.not_mem_directory sound owns different member (same ▸ lastInside)
    rw [grow_fat_of_ne notLast notFresh, grow_data_of_ne notFresh]
    exact a.agrees.frame o c owns other x member
  · intro x member o c owns other
    rw [List.mem_singleton.mp member]
    exact notOwned o c owns other
  · intro named x member
    obtain ⟨-, chainNew, untouched⟩ := a.grow_own lastInside free named
    rw [chainNew] at member
    exact ⟨by simpa using (untouched x member).1, a.alone named x member⟩
  · intro named directory
    obtain ⟨inTable, strictNew, tidyNew, unnamed⟩ := a.empty named directory
    obtain ⟨-, chainNew, untouched⟩ := a.grow_own lastInside free named
    have slotsNew : (J.grow last fresh e).slots e.startCluster = J.slots e.startCluster := by
      rw [Image.slots, chainNew]
      exact slotsOf_congr rfl fun x member => (untouched x member).2.2
    refine ⟨inTable, ?_, slotsNew ▸ tidyNew, slotsNew ▸ unnamed⟩
    exact (strictNew.chain_congr (grow_toShape J last fresh e) fun x member =>
      (untouched x member).2.1).1

end Grow

end Image

end LaylaOS.Fs
