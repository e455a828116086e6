/-
**What a failed write leaves behind.**

`WriteFile` frees the chain of an existing file before it looks for space. If the space does not
suffice it returns false with the directory as it was, and with every cluster that was free then
linked into one chain (`Abandoned`). The entry of the file still starts where it did: in the middle
of that chain, or at the freed cluster 2.
-/

import LaylaOS.Fs.Outcome

namespace LaylaOS.Fs

open LaylaOS.Lib

namespace Image

variable {I J : Image} {D i first : Nat} {name83 : Name} {old : Option DirEntry} {e : DirEntry}
  {O : List Nat} {data : List UInt8}

/-- The clusters `O` have been freed, then all free clusters have been filled and linked from
`first` on. -/
structure Abandoned (I J : Image) (O : List Nat) (first : Nat) : Prop where
  shape : J.toShape = I.toShape
  fatFrame : ∀ x ∉ (I.free O).freeList, J.fat x = (I.free O).fat x
  dataFrame : ∀ x ∉ (I.free O).freeList, J.data x = I.data x
  walk : Walk J.fat InTable first (I.free O).freeList
  linked : ∀ x ∈ (I.free O).freeList, 2 ≤ J.fat x

theorem Abandoned.full (full : (I.free O).freeList = []) : Abandoned I (I.free O) O 0 := by
  refine ⟨rfl, fun _ _ => rfl, fun _ _ => rfl, ?_, ?_⟩
  · rw [full]
    exact fun inTable => absurd inTable.1 (by decide)
  · rw [full]
    exact fun x member => absurd member List.not_mem_nil

theorem Abandoned.short {rest : List Nat} (free : (I.free O).freeList = first :: rest)
    (stored : Stored (I.free O) J first rest data) : Abandoned I J O first := by
  refine ⟨stored.shape, ?_, ?_, ?_, ?_⟩
  all_goals rw [free]
  · exact stored.fatFrame
  · exact stored.dataFrame
  · exact stored.walk
  · exact stored.linked

/-- **A store that fails** for lack of clusters abandons what it has freed and filled. -/
theorem Store.abandoned (store : Store I D name83 data old i O J false) : (∃ first, Abandoned I J O first) ∨
      (old = none ∧ ∃ first L, first ∈ (I.free O).freeList ∧ first ∈ L ∧ Staged I J D i O first L) := by
  cases store with
  | full _ full => exact .inl ⟨0, .full full⟩
  | short _ free _ stored => exact .inl ⟨_, .short free stored⟩
  | blocked _ new free staged => exact .inr ⟨new, _, _, free, List.mem_cons_self, staged⟩

namespace Abandoned

variable (a : Abandoned I J O first)
include a

theorem zero_iff (x : Nat) : J.fat x = 0 ↔ (I.fat x = 0 ∨ x ∈ O) ∧ x ∉ (I.free O).freeList :=
  free_zero_iff a.fatFrame a.linked x

theorem chain_of_mem {before after : List Nat} {start : Nat}
    (split : (I.free O).freeList = before ++ start :: after) :
    J.Strict start ∧ J.chain start = start :: after := by
  have walk := a.walk
  rw [split] at walk
  refine Strict.of_walk walk.tail fun x member => ?_
  have filled : x ∈ (I.free O).freeList := by
    rw [split]
    exact List.mem_append_right _ member
  refine ⟨?_, a.linked x filled⟩
  rw [a.shape]
  exact (mem_freeList.mp filled).2.1

variable (sound : I.Sound) (dir : I.IsDir D)
include sound dir

theorem agrees (vacates : Vacates I D name83 old i O) : Agrees I J (some (D, i)) :=
  vacates.agrees sound dir a.shape (List.Subset.refl _) a.fatFrame a.dataFrame

theorem loose (vacates : Vacates I D name83 (some e) i O) : J.Loose e.startCluster ∧
    ∀ x ∈ J.chain e.startCluster, x ∈ O ∨ x ∈ (I.free O).freeList := by
  cases vacates with
  | old _ slot named _ =>
    have loose := sound.chained _ _ (.entry dir slot named)
    by_cases inTable : InTable e.startCluster
    · have starts := loose.walk.start_mem inTable
      by_cases two : e.startCluster = 2
      · have outside : 2 ∉ (I.free (I.chain e.startCluster)).freeList := fun member => by
          have := (mem_freeList.mp member).1
          omega
        have zero : J.fat 2 = 0 := (a.zero_iff 2).mpr ⟨.inr (two ▸ starts), outside⟩
        have walk : Walk J.fat InTable e.startCluster [2] :=
          ⟨two.symm, inTable, by rw [two, zero]; exact fun low => absurd low.1 (by decide)⟩
        obtain ⟨loose', chain⟩ := Loose.of_walk walk fun x member => by
          rw [a.shape, List.mem_singleton.mp member]
          exact ⟨two ▸ (loose.used _ starts).1, .inl rfl⟩
        refine ⟨loose', fun x member => .inl ?_⟩
        rw [chain, List.mem_singleton] at member
        rw [member, ← two]
        exact starts
      · have freed : e.startCluster ∈ (I.free (I.chain e.startCluster)).freeList :=
          mem_freeList.mpr ⟨by have := inTable.1; omega, (loose.used _ starts).1, if_pos starts⟩
        obtain ⟨before, after, split⟩ := List.append_of_mem freed
        obtain ⟨strict, chain⟩ := a.chain_of_mem split
        refine ⟨strict.loose, fun x member => .inr ?_⟩
        rw [chain] at member
        rw [split]
        exact List.mem_append_right _ member
    · have walk : Walk J.fat InTable e.startCluster [] := inTable
      obtain ⟨loose', chain⟩ := Loose.of_walk walk fun x member => absurd member List.not_mem_nil
      refine ⟨loose', fun x member => ?_⟩
      rw [chain] at member
      exact absurd member List.not_mem_nil

/-- **The slot keeps its entry**, and everything else is as it was. -/
theorem rewrites (vacates : Vacates I D name83 old i O) : Rewrites I J D i (old.getD DirEntry.zero) [] := by
  have agrees := a.agrees sound dir vacates
  have file := vacates.file
  cases old with
  | none =>
    exact (agrees.admits_dead dir file rfl).keep_rewrites sound vacates.new_slot
  | some e =>
    obtain ⟨loose, inside⟩ := a.loose sound dir vacates
    obtain ⟨slot, live, -⟩ := vacates.slot
    have admits : Admits I J D i e := by
      refine ⟨dir, agrees, file, fun _ => loose, fun _ x member o c owns other mine => ?_, ?_⟩
      · rcases inside x member with given | filled
        · exact vacates.not_owned sound dir owns other mine given
        · exact vacates.taken_not_owned sound dir owns other mine filled
      · intro named directory
        rw [file e slot named] at directory
        cases directory
    refine admits.keep_rewrites sound fun e' _ => ?_
    rw [slot, Option.some.injEq, eq_comm]

end Abandoned

end Image

end LaylaOS.Fs
