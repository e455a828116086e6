/-
**A ledger of frames.**

`Ledger before after taken`: the frames at the addresses `taken` have been taken from the manager since
it was `before`, and nothing else has happened to it.
-/

import LaylaOS.Memory.Pmm

namespace LaylaOS.Memory

namespace Pmm

/-- The frames at the listed addresses were clear before and are marked after, each once, and nothing
else has changed. -/
structure Ledger (before after : Pmm) (taken : List Nat) : Prop where
  distinct : taken.Nodup
  frames : ∀ addr ∈ taken, addr % 4096 = 0 ∧ addr / 4096 ∈ before.clearFrames
  marks : before.Marks after (taken.map (· / 4096)) true

namespace Ledger

variable {before after : Pmm} {taken : List Nat}

theorem nil (balanced : before.Balanced) : Ledger before before [] :=
  ⟨List.nodup_nil, nofun, .nil balanced true⟩

theorem perm {taken' : List Nat} (ledger : Ledger before after taken) (same : taken.Perm taken') :
    Ledger before after taken' where
  distinct := same.nodup_iff.mp ledger.distinct
  frames := fun addr member => ledger.frames addr (same.mem_iff.mpr member)
  marks :=
    { ledger.marks with
      bits := fun frame => by
        rw [ledger.marks.bits frame]
        exact if_congr (same.map _).mem_iff rfl rfl }

theorem eq_of_frame (ledger : Ledger before after taken) {addr other : Nat} (here : addr ∈ taken)
    (there : other ∈ taken) (same : addr / 4096 = other / 4096) : addr = other := by
  have first := (ledger.frames addr here).1
  have second := (ledger.frames other there).1
  omega

theorem frames_nodup (ledger : Ledger before after taken) : (taken.map (· / 4096)).Nodup :=
  (List.nodup_map_iff_inj_on ledger.distinct).mpr fun _ here _ there same =>
    ledger.eq_of_frame here there same

theorem used (ledger : Ledger before after taken) {addr : Nat} (member : addr ∈ taken) :
    addr / 4096 < after.totalFrames ∧ after.testBit (addr / 4096) = true := by
  rw [ledger.marks.total, ledger.marks.bits, if_pos (List.mem_map_of_mem member)]
  exact ⟨(mem_clearFrames.mp (ledger.frames addr member).2).1, rfl⟩

theorem clearFrames_eq (ledger : Ledger before after taken) :
    after.clearFrames = before.clearFrames \ (taken.map (· / 4096)).toFinset := by
  ext frame
  rw [Finset.mem_sdiff, mem_clearFrames, mem_clearFrames, ledger.marks.total, ledger.marks.bits,
    List.mem_toFinset]
  split_ifs with member
  · simp [member]
  · simp [member]

theorem count (ledger : Ledger before after taken) (balanced : before.Balanced) :
    after.freeFrames + taken.length = before.freeFrames := by
  have inside : (taken.map (· / 4096)).toFinset ⊆ before.clearFrames := by
    intro frame member
    obtain ⟨addr, there, rfl⟩ := List.mem_map.mp (List.mem_toFinset.mp member)
    exact (ledger.frames addr there).2
  have fewer := Finset.card_sdiff_add_card_eq_card inside
  rwa [← ledger.clearFrames_eq, List.toFinset_card_of_nodup ledger.frames_nodup, List.length_map,
    ← ledger.marks.balanced.counted, ← balanced.counted] at fewer

theorem alloc (ledger : Ledger before after taken) (found : after.allocFrame.1 ≠ 0) :
    Ledger before after.allocFrame.2 (after.allocFrame.1 :: taken) := by
  rcases allocFrame_cases ledger.marks.balanced with ⟨-, none⟩ | ⟨frame, clear, -, addr, marks⟩
  · exact absurd (by rw [none]) found
  · have number : after.allocFrame.1 / 4096 = frame := by rw [addr, Nat.mul_div_cancel _ (by decide)]
    rw [ledger.clearFrames_eq, Finset.mem_sdiff, List.mem_toFinset] at clear
    refine ⟨List.nodup_cons.mpr ⟨fun member => ?_, ledger.distinct⟩, ?_,
      marks.total.trans ledger.marks.total, fun other => ?_, marks.balanced⟩
    · exact clear.2 (number ▸ List.mem_map_of_mem member)
    · rintro other (_ | ⟨_, member⟩)
      · exact ⟨by rw [addr]; exact Nat.mul_mod_left _ _, number ▸ clear.1⟩
      · exact ledger.frames other member
    · rw [marks.bits, ledger.marks.bits, List.map_cons, number]
      by_cases here : other = frame <;> simp [here]

theorem free {freed kept : List Nat} (ledger : Ledger before after (freed ++ kept)) :
    Ledger before (freed.foldl freeFrame after) kept := by
  obtain ⟨once, distinct, apart⟩ := List.nodup_append.mp ledger.distinct
  have marks := freeFrames_marks ledger.marks.balanced
    (ledger.frames_nodup.sublist ((List.sublist_append_left freed kept).map _))
    fun addr member => ledger.used (List.mem_append_left _ member)
  refine ⟨distinct, fun addr member => ledger.frames addr (List.mem_append_right _ member),
    marks.total.trans ledger.marks.total, fun frame => ?_, marks.balanced⟩
  rw [marks.bits, ledger.marks.bits, List.map_append]
  by_cases here : frame ∈ freed.map (· / 4096)
  · -- it was clear before, and no other address has this frame
    obtain ⟨addr, member, rfl⟩ := List.mem_map.mp here
    have clear := (mem_clearFrames.mp (ledger.frames addr (List.mem_append_left _ member)).2).2
    rw [if_pos here, if_neg, clear]
    intro there
    obtain ⟨other, member', same⟩ := List.mem_map.mp there
    exact apart addr member other member' (ledger.eq_of_frame (List.mem_append_left _ member)
      (List.mem_append_right _ member') same.symm)
  · rw [if_neg here]
    exact if_congr (by simp [here]) rfl rfl

theorem since {middle : Pmm} {more : List Nat} (first : Ledger before middle taken)
    (whole : Ledger before after (taken ++ more)) : Ledger middle after more := by
  obtain ⟨-, distinct, apart⟩ := List.nodup_append.mp whole.distinct
  refine ⟨distinct, fun addr member => ⟨(whole.frames addr (List.mem_append_right _ member)).1, ?_⟩,
    whole.marks.total.trans first.marks.total.symm, fun frame => ?_, whole.marks.balanced⟩
  · rw [first.clearFrames_eq, Finset.mem_sdiff, List.mem_toFinset]
    refine ⟨(whole.frames addr (List.mem_append_right _ member)).2, fun there => ?_⟩
    obtain ⟨other, member', same⟩ := List.mem_map.mp there
    exact apart other member' addr member (whole.eq_of_frame (List.mem_append_left _ member')
      (List.mem_append_right _ member) same)
  · rw [whole.marks.bits, first.marks.bits, List.map_append]
    by_cases old : frame ∈ taken.map (· / 4096)
    · simp [old]
    · simp [old]

end Ledger

end Pmm

end LaylaOS.Memory
