/-
**Physical frame ownership.**

`Tracked` runs the manager next to a record of what was done with each frame, which never looks at
the bitmap.

* `frame_ownership` — in every state that allowed operations reach from `Init`, the counter is the
  number of clear bits, and `AllocFrame` returns the lowest free frame.
-/

import LaylaOS.Lib.Steps
import LaylaOS.Memory.Pmm

namespace LaylaOS.Memory

open LaylaOS.Lib

/-- What was last done with a frame. -/
inductive FrameStatus
  /-- `Init` or `MarkUsed`. -/
  | used
  /-- `MarkFree` or `FreeFrame`. -/
  | free
  /-- Returned by `AllocFrame`. -/
  | handedOut
  deriving DecidableEq, Repr

/-- The calls after `Init`. -/
inductive FrameOp
  | markFree (addr length : Nat)
  | markUsed (addr length : Nat)
  | allocFrame
  | freeFrame (addr : Nat)
  deriving DecidableEq, Repr

/-- The manager and the record of its frames. -/
structure Tracked where
  pmm : Pmm
  status : Nat → FrameStatus

namespace Tracked

/-- `Init`: all frames are used. -/
def init (words : Bitmap 32) (memSize : Nat) : Tracked where
  pmm := Pmm.init words memSize
  status := fun _ => .used

/-- A frame of the range. -/
def InRange (addr length frame : Nat) : Prop := addr ≤ frame * 4096 ∧ frame * 4096 < addr + length

instance (addr length frame : Nat) : Decidable (InRange addr length frame) :=
  inferInstanceAs (Decidable (_ ∧ _))

/-- One call. -/
def step (t : Tracked) : FrameOp → Tracked
  | .markFree addr length =>
    { pmm := t.pmm.markFree addr length
      status := fun frame => if InRange addr length frame then .free else t.status frame }
  | .markUsed addr length =>
    { pmm := t.pmm.markUsed addr length
      status := fun frame => if InRange addr length frame then .used else t.status frame }
  | .allocFrame =>
    { pmm := t.pmm.allocFrame.2
      status :=
        if t.pmm.allocFrame.1 = 0 then t.status
        else Function.update t.status (t.pmm.allocFrame.1 / 4096) .handedOut }
  | .freeFrame addr =>
    { pmm := t.pmm.freeFrame addr
      status := Function.update t.status (addr / 4096) .free }

/-- Whole frames without frame 0, and no wrap around 4 GiB. -/
def WholeFrames (addr length : Nat) : Prop :=
  addr % 4096 = 0 ∧ length % 4096 = 0 ∧ addr + length < 2 ^ 32 ∧ ¬ InRange addr length 0

/-- The calls the manager is meant for. -/
def Allowed (t : Tracked) : FrameOp → Prop
  | .markFree addr length => WholeFrames addr length
  | .markUsed addr length => WholeFrames addr length
  | .allocFrame => True
  | .freeFrame addr => addr % 4096 = 0 ∧ addr < 2 ^ 32 ∧ t.status (addr / 4096) = .handedOut

/-- The counter is right, frame 0 is used, and so is every frame that is not free. -/
structure Owned (total : Nat) (t : Tracked) : Prop where
  total : t.pmm.totalFrames = total
  balanced : t.pmm.Balanced
  zero : t.status 0 = .used
  set : ∀ frame < t.pmm.totalFrames, t.status frame ≠ .free → t.pmm.testBit frame = true
  inside : ∀ frame, t.status frame = .handedOut → frame < t.pmm.totalFrames

section Owned

variable {total : Nat} {t : Tracked}

theorem Owned.zero_notMem (owned : Owned total t) : 0 ∉ t.pmm.clearFrames := by
  intro free
  obtain ⟨inside, unset⟩ := Pmm.mem_clearFrames.mp free
  rw [owned.set 0 inside (by rw [owned.zero]; decide)] at unset
  cases unset

theorem Owned.free_of_mem (owned : Owned total t) {frame : Nat}
    (clear : frame ∈ t.pmm.clearFrames) : t.status frame = .free := by
  obtain ⟨inside, unset⟩ := Pmm.mem_clearFrames.mp clear
  by_contra taken
  rw [owned.set frame inside taken] at unset
  cases unset

theorem init_owned (words : Bitmap 32) {memSize : Nat} (fits : memSize < 2 ^ 32) :
    Owned (memSize / 4096) (init words memSize) where
  total := rfl
  balanced := Pmm.init_balanced words fits
  zero := rfl
  set := fun _ inside _ => Pmm.testBit_init words inside
  inside := fun _ out => by cases out

/-! ### One call -/

theorem Owned.marks (owned : Owned total t) {m : Pmm} {frames : List Nat} {value : Bool}
    {status : Nat → FrameStatus} {new : FrameStatus} (marks : t.pmm.Marks m frames value)
    (fits : new = .free ∨ value = true)
    (wrote : ∀ frame < t.pmm.totalFrames, status frame = if frame ∈ frames then new else t.status frame)
    (zero : status 0 = .used)
    (inside : ∀ frame, status frame = .handedOut → frame < t.pmm.totalFrames) :
    Owned total ⟨m, status⟩ where
  total := marks.total.trans owned.total
  balanced := marks.balanced
  zero := zero
  set := by
    intro frame low taken
    have low : frame < t.pmm.totalFrames := by rwa [← marks.total]
    replace taken : status frame ≠ .free := taken
    show m.testBit frame = true
    rw [wrote frame low] at taken
    rw [marks.bits]
    split_ifs at taken ⊢ with here
    · exact fits.resolve_left taken
    · exact owned.set frame low taken
  inside := by
    intro frame out
    show frame < m.totalFrames
    rw [marks.total]
    exact inside frame out

theorem mem_marked {addr length stop : Nat} (total frame : Nat) (whole : WholeFrames addr length)
    (last : stop = (addr + length) / 4096) :
    frame ∈ List.range' (addr / 4096) (min stop total - addr / 4096) ↔
      InRange addr length frame ∧ frame < total := by
  obtain ⟨first, size, -, -⟩ := whole
  rw [List.mem_range'_1]
  unfold InRange
  omega

theorem Owned.marksRange (owned : Owned total t) {m : Pmm} {addr length stop : Nat}
    {value : Bool} {new : FrameStatus} (whole : WholeFrames addr length)
    (last : stop = (addr + length) / 4096)
    (marks : t.pmm.Marks m (List.range' (addr / 4096) (min stop t.pmm.totalFrames - addr / 4096)) value)
    (fits : new = .free ∨ value = true) (kept : new ≠ .handedOut) :
    Owned total ⟨m, fun frame => if InRange addr length frame then new else t.status frame⟩ := by
  refine owned.marks marks fits (fun frame low => ?_) ?_ fun frame out => ?_
  · refine if_congr ?_ rfl rfl
    rw [mem_marked _ frame whole last]
    exact (and_iff_left low).symm
  · show (if _ then _ else _) = _
    rw [if_neg whole.2.2.2, owned.zero]
  · replace out : (if InRange addr length frame then new else t.status frame) = .handedOut := out
    split_ifs at out
    · exact absurd out kept
    · exact owned.inside frame out

theorem Owned.marksFrame (owned : Owned total t) {m : Pmm} {frame : Nat} {value : Bool}
    {new : FrameStatus} (marks : t.pmm.Marks m [frame] value) (fits : new = .free ∨ value = true)
    (low : frame < t.pmm.totalFrames) (positive : frame ≠ 0) :
    Owned total ⟨m, Function.update t.status frame new⟩ := by
  refine owned.marks marks fits (fun other _ => ?_) ?_ fun other out => ?_
  · rw [Function.update_apply]
    exact if_congr List.mem_singleton.symm rfl rfl
  · rw [Function.update_of_ne positive.symm, owned.zero]
  · by_cases same : other = frame
    · rwa [same]
    · rw [Function.update_of_ne same] at out
      exact owned.inside other out

/-- **One allowed call keeps the record and the bitmap together.** -/
theorem Owned.step (owned : Owned total t) {op : FrameOp} (allowed : t.Allowed op) :
    Owned total (t.step op) := by
  cases op with
  | markFree addr length =>
    have whole : WholeFrames addr length := allowed
    refine owned.marksRange whole ?_ (Pmm.markFree_marks owned.balanced addr length) (.inl rfl) (by decide)
    rw [Nat.mod_eq_of_lt whole.2.2.1]
  | markUsed addr length =>
    have whole : WholeFrames addr length := allowed
    refine owned.marksRange whole ?_ (Pmm.markUsed_marks owned.balanced addr length) (.inr rfl) (by decide)
    obtain ⟨first, size, below, -⟩ := whole
    rw [Nat.mod_eq_of_lt (by omega)]
    omega
  | allocFrame =>
    rcases Pmm.allocFrame_cases owned.balanced with ⟨-, full⟩ | ⟨frame, clear, -, addr, marks⟩
    · show Owned total ⟨t.pmm.allocFrame.2, if t.pmm.allocFrame.1 = 0 then t.status else _⟩
      rw [full, if_pos rfl]
      exact owned
    · have positive : frame ≠ 0 := by
        rintro rfl
        exact owned.zero_notMem clear
      have low := (Pmm.mem_clearFrames.mp clear).1
      show Owned total ⟨t.pmm.allocFrame.2, if t.pmm.allocFrame.1 = 0 then t.status else _⟩
      rw [addr, if_neg (by omega), Nat.mul_div_cancel _ (by decide)]
      exact owned.marksFrame marks (.inr rfl) low positive
  | freeFrame addr =>
    obtain ⟨-, -, out⟩ := allowed
    have low := owned.inside _ out
    have set := owned.set _ low (by rw [out]; decide)
    refine owned.marksFrame (Pmm.freeFrame_marks owned.balanced low set) (.inl rfl) low fun zero => ?_
    rw [zero, owned.zero] at out
    cases out

end Owned

/-! ### Runs -/

/-- The state after `Init` and a sequence of calls. -/
def run (words : Bitmap 32) (memSize : Nat) (ops : List FrameOp) : Tracked :=
  ops.foldl step (init words memSize)

/-- The counter is the number of clear bits among the first `total_frames`. `AllocFrame` returns `0`
if there is none and otherwise the address of the lowest clear frame, which was last marked free or
freed, and writes its bit alone. -/
structure ServesFrames (t : Tracked) : Prop where
  counted : t.pmm.freeFrameCount = t.pmm.clearFrames.card
  none_iff : t.pmm.allocFrame.1 = 0 ↔ t.pmm.clearFrames.card = 0
  lowest : t.pmm.clearFrames.card ≠ 0 → ∃ frame < t.pmm.totalFrames,
    t.pmm.allocFrame.1 = frame * 4096 ∧ t.pmm.testBit frame = false ∧
      (∀ lower < frame, t.pmm.testBit lower = true) ∧ t.status frame ≠ .handedOut ∧
      t.status frame ≠ .used
  others : ∀ frame, (t.pmm.allocFrame.1 ≠ 0 → t.pmm.allocFrame.1 ≠ frame * 4096) →
    t.pmm.allocFrame.2.testBit frame = t.pmm.testBit frame

theorem Owned.servesFrames {total : Nat} {t : Tracked} (owned : Owned total t) : t.ServesFrames := by
  rcases Pmm.allocFrame_cases owned.balanced with ⟨none, full⟩ | ⟨frame, clear, lowest, addr, marks⟩
  · refine ⟨owned.balanced.counted, ?_, fun some => absurd (by rw [none]; rfl) some, fun other _ => ?_⟩
    · rw [full, none]
      simp
    · rw [full]
  · obtain ⟨low, unset⟩ := Pmm.mem_clearFrames.mp clear
    have positive : frame ≠ 0 := by
      rintro rfl
      exact owned.zero_notMem clear
    have some : t.pmm.clearFrames.card ≠ 0 := Finset.card_ne_zero_of_mem clear
    have free := owned.free_of_mem clear
    refine ⟨owned.balanced.counted, ?_, fun _ => ?_, fun other differs => ?_⟩
    · rw [addr]
      omega
    · refine ⟨frame, low, addr, unset, fun lower less => ?_, by rw [free]; decide, by rw [free]; decide⟩
      by_contra clear
      exact lowest lower less (Pmm.mem_clearFrames.mpr ⟨by omega, (Bool.not_eq_true _).mp clear⟩)
    · have other_ne : other ∉ [frame] := by
        intro same
        rw [List.mem_singleton] at same
        exact differs (by omega) (by rw [addr, same])
      rw [marks.bits, if_neg other_ne]

theorem owned_run {words : Bitmap 32} {memSize : Nat} {ops : List FrameOp} (fits : memSize < 2 ^ 32)
    (allowed : Always step Allowed (init words memSize) ops) :
    Owned (memSize / 4096) (run words memSize ops) :=
  allowed.invariant (fun _ _ owned may => owned.step may) (init_owned words fits)

/-- **Frame ownership** after every allowed sequence of calls. -/
theorem frame_ownership (words : Bitmap 32) (memSize : Nat) (ops : List FrameOp)
    (fits : memSize < 2 ^ 32) (allowed : Always step Allowed (init words memSize) ops) :
    (run words memSize ops).pmm.totalFrames = memSize / 4096 ∧ (run words memSize ops).ServesFrames :=
  ⟨(owned_run fits allowed).total, (owned_run fits allowed).servesFrames⟩

/-- Four of five frames are freed, two handed out, one is reserved and one given back. -/
def fiveFrames : List FrameOp :=
  [.markFree 0x1000 0x4000, .allocFrame, .markUsed 0x2000 0x1000, .allocFrame, .freeFrame 0x1000]

theorem frame_ownership_five : (run (fun _ => 0#32) 0x5000 fiveFrames).pmm.allocFrame.1 = 0x1000 ∧
      (run (fun _ => 0#32) 0x5000 fiveFrames).ServesFrames := by
  refine ⟨by decide, (frame_ownership _ _ fiveFrames (by decide) ⟨?_, trivial, ?_, trivial, ?_, trivial⟩).2⟩
  · show WholeFrames 0x1000 0x4000
    unfold WholeFrames
    decide
  · show WholeFrames 0x2000 0x1000
    unfold WholeFrames
    decide
  · exact ⟨by decide, by decide, by decide⟩

/-- **A range up to 4 GiB** does not wrap, but the sum of its start and its length does: `MarkUsed` marks
nothing, and `AllocFrame` returns a frame that is marked used. -/
theorem range_to_the_end :
    let t := run (fun _ => 0#32) 0x3000 [.markFree 0x1000 0x1000, .markUsed 0x1000 0xFFFFF000]
    0x1000 + 0xFFFFF000 = 2 ^ 32 ∧ ¬ InRange 0x1000 0xFFFFF000 0 ∧ t.status 1 = .used ∧
      t.pmm.allocFrame.1 = 1 * 4096 ∧ ¬ t.ServesFrames := by
  refine ⟨by decide, by decide, by decide, by decide, fun serves => ?_⟩
  obtain ⟨frame, -, addr, -, -, -, other⟩ := serves.lowest fun none => by
    have zero := serves.none_iff.mpr none
    revert zero
    decide
  have one : frame = 1 := Nat.eq_of_mul_eq_mul_right (by decide) (addr.symm.trans (by decide))
  exact other (one ▸ by decide)

end Tracked

end LaylaOS.Memory
