/-
**The physical memory manager** (`memory/pmm.cpp`).

One bit for each 4 KiB frame, set for a used one. `bitmap` are the words at `bitmap_base`.
-/

import LaylaOS.Lib.Bitmap

namespace LaylaOS.Memory

open LaylaOS.Lib

/-- The static members of `PhysicalMemoryManager`. -/
structure Pmm where
  bitmap : Bitmap 32
  totalFrames : Nat
  freeFrames : Nat

namespace Pmm

/-- `Init`, over whatever the words at `bitmap_base` hold. -/
def init (words : Bitmap 32) (memSize : Nat) : Pmm where
  bitmap := fun i => if i < (memSize / 4096 + 31) / 32 then 0xFFFFFFFF#32 else words i
  totalFrames := memSize / 4096
  freeFrames := 0

/-- `SetBit`. -/
def setBit (m : Pmm) (frame : Nat) : Pmm := { m with bitmap := m.bitmap.set frame }

/-- `ClearBit`. -/
def clearBit (m : Pmm) (frame : Nat) : Pmm := { m with bitmap := m.bitmap.clear frame }

/-- `TestBit`. -/
def testBit (m : Pmm) (frame : Nat) : Bool := m.bitmap.test frame

/-- `FirstFree`, with `none` for `-1`. -/
def firstFree (m : Pmm) : Option Nat :=
  (List.range ((m.totalFrames + 31) / 32)).findSome? fun i =>
    if m.bitmap i != 0xFFFFFFFF#32 then
      (List.range 32).findSome? fun b =>
        if (~~~m.bitmap i &&& (1#32 <<< b)) != 0#32 then
          if i * 32 + b < m.totalFrames then some (i * 32 + b) else none
        else none
    else none

/-- `if (free_frames > 0) free_frames--;`. -/
def countDown (m : Pmm) : Pmm :=
  if 0 < m.freeFrames then { m with freeFrames := m.freeFrames - 1 } else m

/-- `free_frames++;`. -/
def countUp (m : Pmm) : Pmm := { m with freeFrames := (m.freeFrames + 1) % 2 ^ 32 }

/-- `AllocFrame`: the address it returns, `0` for none, and the state it leaves. -/
def allocFrame (m : Pmm) : Nat × Pmm :=
  match m.firstFree with
  | none => (0, m)
  | some frame => (frame * 4096 % 2 ^ 32, (m.setBit frame).countDown)

/-- `FreeFrame`. -/
def freeFrame (m : Pmm) (addr : Nat) : Pmm := (m.clearBit (addr / 4096)).countUp

/-- The body of the loop of `MarkUsed`. -/
def markUsedFrame (m : Pmm) (i : Nat) : Pmm :=
  (if m.testBit i = false then m.countDown else m).setBit i

/-- `MarkUsed`. -/
def markUsed (m : Pmm) (addr length : Nat) : Pmm :=
  let start := addr / 4096
  let stop := (addr + length + 4095) % 2 ^ 32 / 4096
  (List.range' start (min stop m.totalFrames - start)).foldl markUsedFrame m

/-- The body of the loop of `MarkFree`. -/
def markFreeFrame (m : Pmm) (i : Nat) : Pmm :=
  (if m.testBit i then m.countUp else m).clearBit i

/-- `MarkFree`. -/
def markFree (m : Pmm) (addr length : Nat) : Pmm :=
  let start := addr / 4096
  let stop := (addr + length) % 2 ^ 32 / 4096
  (List.range' start (min stop m.totalFrames - start)).foldl markFreeFrame m

/-- `FreeFrameCount`. -/
def freeFrameCount (m : Pmm) : Nat := m.freeFrames

/-- The frames with a clear bit. -/
def clearFrames (m : Pmm) : Finset Nat := m.bitmap.clearBelow m.totalFrames

theorem mem_clearFrames {m : Pmm} {frame : Nat} :
    frame ∈ m.clearFrames ↔ frame < m.totalFrames ∧ m.testBit frame = false :=
  Bitmap.mem_clearBelow

/-! ### `FirstFree` -/

theorem firstFree_word (m : Pmm) (i : Nat) : (if m.bitmap i != 0xFFFFFFFF#32 then
      (List.range 32).findSome? fun b =>
        if (~~~m.bitmap i &&& (1#32 <<< b)) != 0#32 then
          if i * 32 + b < m.totalFrames then some (i * 32 + b) else none
        else none
    else none) = (List.range 32).findSome? fun b =>
      Option.guard (fun frame => decide (frame ∈ m.clearFrames)) (i * 32 + b) := by
  have bit : ∀ b < 32, (if (~~~m.bitmap i &&& (1#32 <<< b)) != 0#32 then
      if i * 32 + b < m.totalFrames then some (i * 32 + b) else none else none) =
      Option.guard (fun frame => decide (frame ∈ m.clearFrames)) (i * 32 + b) := by
    intro b inside
    have word : (i * 32 + b) / 32 = i := by omega
    have low : (i * 32 + b) % 32 = b := by omega
    rw [Bitmap.and_mask_ne_zero _ inside, Option.guard]
    simp only [mem_clearFrames, testBit, Bitmap.test_eq, word, low, BitVec.getLsbD_not, inside]
    cases (m.bitmap i).getLsbD b <;> simp
  split_ifs with mixed
  · refine findSome?_congr fun b member => ?_
    exact bit b (List.mem_range.mp member)
  · have ones : m.bitmap i = 0xFFFFFFFF#32 := by simpa using mixed
    refine (List.findSome?_eq_none_iff.mpr fun b member => ?_).symm
    rw [← bit b (List.mem_range.mp member), ones]
    simp

theorem firstFree_eq (m : Pmm) : m.firstFree =
    (List.range ((m.totalFrames + 31) / 32 * 32)).find? fun frame => decide (frame ∈ m.clearFrames) := by
  unfold firstFree
  rw [List.find?_eq_findSome?_guard, ← findSome?_range_mul]
  congr 1
  funext i
  exact firstFree_word m i

theorem firstFree_eq_some {m : Pmm} {frame : Nat} :
    m.firstFree = some frame ↔ frame ∈ m.clearFrames ∧ ∀ lower < frame, lower ∉ m.clearFrames := by
  rw [firstFree_eq, List.find?_range_eq_some]
  constructor
  · rintro ⟨free, -, lowest⟩
    refine ⟨of_decide_eq_true free, fun lower less => ?_⟩
    simpa using lowest lower less
  · rintro ⟨free, lowest⟩
    have inside := (mem_clearFrames.mp free).1
    refine ⟨decide_eq_true free, List.mem_range.mpr (by omega), fun lower less => ?_⟩
    simpa using lowest lower less

theorem firstFree_eq_none {m : Pmm} : m.firstFree = none ↔ m.clearFrames = ∅ := by
  rw [firstFree_eq, List.find?_eq_none, Finset.eq_empty_iff_forall_notMem]
  constructor
  · intro missed frame free
    have inside := (mem_clearFrames.mp free).1
    exact missed frame (List.mem_range.mpr (by omega)) (decide_eq_true free)
  · intro none frame _
    simpa using none frame

/-! ### The bits and the counter -/

@[simp] theorem bitmap_countDown (m : Pmm) : m.countDown.bitmap = m.bitmap := by
  unfold countDown
  split <;> rfl

@[simp] theorem totalFrames_countDown (m : Pmm) : m.countDown.totalFrames = m.totalFrames := by
  unfold countDown
  split <;> rfl

@[simp] theorem freeFrames_countDown (m : Pmm) : m.countDown.freeFrames = m.freeFrames - 1 := by
  unfold countDown
  split
  · rfl
  · omega

theorem testBit_setBit (m : Pmm) (frame other : Nat) :
    (m.setBit frame).testBit other = if other = frame then true else m.testBit other :=
  Bitmap.test_set ..

theorem testBit_clearBit (m : Pmm) (frame other : Nat) :
    (m.clearBit frame).testBit other = if other = frame then false else m.testBit other :=
  Bitmap.test_clear ..

/-- The counter is the number of clear bits. -/
structure Balanced (m : Pmm) : Prop where
  counted : m.freeFrames = m.clearFrames.card
  small : m.totalFrames < 2 ^ 20

theorem Balanced.finds {m : Pmm} (balanced : m.Balanced) (room : 0 < m.freeFrames) : m.clearFrames ≠ ∅ := by
  intro none
  rw [balanced.counted, none] at room
  cases room

theorem Balanced.take {m : Pmm} {frame : Nat} (balanced : m.Balanced)
    (free : frame ∈ m.clearFrames) : (m.setBit frame).countDown.Balanced := by
  refine ⟨?_, by simpa [Pmm.setBit] using balanced.small⟩
  have after : (m.setBit frame).countDown.clearFrames = m.clearFrames.erase frame := by
    rw [clearFrames, bitmap_countDown, totalFrames_countDown]
    exact Bitmap.clearBelow_set ..
  rw [freeFrames_countDown, after, Finset.card_erase_of_mem free, ← balanced.counted]
  rfl

theorem Balanced.give {m : Pmm} {frame : Nat} (balanced : m.Balanced)
    (inside : frame < m.totalFrames) (used : m.testBit frame = true) :
    (m.clearBit frame).countUp.Balanced := by
  refine ⟨?_, balanced.small⟩
  have fresh : frame ∉ m.clearFrames := fun free => by simp [(mem_clearFrames.mp free).2] at used
  have after : (m.clearBit frame).countUp.clearFrames = insert frame m.clearFrames :=
    Bitmap.clearBelow_clear m.bitmap inside
  have few : m.clearFrames.card ≤ m.totalFrames := (Finset.card_filter_le _ _).trans_eq (Finset.card_range _)
  have small := balanced.small
  rw [after, Finset.card_insert_of_notMem fresh, ← balanced.counted]
  rw [← balanced.counted] at few
  show (m.freeFrames + 1) % 2 ^ 32 = m.freeFrames + 1
  exact Nat.mod_eq_of_lt (by omega)

theorem Balanced.same {m m' : Pmm} (balanced : m.Balanced) (total : m'.totalFrames = m.totalFrames)
    (count : m'.freeFrames = m.freeFrames) (bits : ∀ frame, m'.testBit frame = m.testBit frame) :
    m'.Balanced := by
  have after : m'.clearFrames = m.clearFrames := by
    ext frame
    rw [mem_clearFrames, mem_clearFrames, total, bits]
  exact ⟨by rw [count, after, balanced.counted], by rw [total]; exact balanced.small⟩

/-! ### Marking ranges -/

/-- The bits of the listed frames get a value, all others stay, and the counter is right again. -/
structure Marks (m m' : Pmm) (frames : List Nat) (value : Bool) : Prop where
  total : m'.totalFrames = m.totalFrames
  bits : ∀ frame, m'.testBit frame = if frame ∈ frames then value else m.testBit frame
  balanced : m'.Balanced

theorem Marks.nil {m : Pmm} (balanced : m.Balanced) (value : Bool) : m.Marks m [] value :=
  ⟨rfl, fun frame => by simp, balanced⟩

theorem Marks.one {m m' : Pmm} {i : Nat} {value : Bool} (total : m'.totalFrames = m.totalFrames)
    (bits : ∀ frame, m'.testBit frame = if frame = i then value else m.testBit frame)
    (balanced : m'.Balanced) : m.Marks m' [i] value :=
  ⟨total, fun frame => by simp [bits frame], balanced⟩

theorem Marks.trans {m m' m'' : Pmm} {frame : Nat} {frames : List Nat} {value : Bool}
    (first : m.Marks m' [frame] value) (rest : m'.Marks m'' frames value) :
    m.Marks m'' (frame :: frames) value := by
  refine ⟨rest.total.trans first.total, fun other => ?_, rest.balanced⟩
  rw [rest.bits, first.bits]
  by_cases here : other = frame <;> by_cases later : other ∈ frames <;> simp [here, later]

theorem Marks.foldl {body : Pmm → Nat → Pmm} {value : Bool}
    (each : ∀ {m : Pmm} {i}, m.Balanced → i < m.totalFrames → m.Marks (body m i) [i] value)
    (frames : List Nat) {m : Pmm} (balanced : m.Balanced)
    (inside : ∀ frame ∈ frames, frame < m.totalFrames) :
    m.Marks (frames.foldl body m) frames value := by
  induction frames generalizing m with
  | nil => exact .nil balanced value
  | cons i frames ih =>
    have first := each balanced (inside i (List.mem_cons_self ..))
    refine first.trans (ih first.balanced fun frame member => ?_)
    rw [first.total]
    exact inside frame (List.mem_cons_of_mem i member)

theorem countDown_setBit (m : Pmm) (i : Nat) : m.countDown.setBit i = (m.setBit i).countDown := by
  by_cases some : 0 < m.freeFrames
  · simp [countDown, setBit, some]
  · simp [countDown, setBit, some]

theorem markUsedFrame_marks {m : Pmm} {i : Nat} (balanced : m.Balanced) (inside : i < m.totalFrames) :
    m.Marks (m.markUsedFrame i) [i] true := by
  have bits := testBit_setBit m i
  unfold markUsedFrame
  split_ifs with free
  · rw [countDown_setBit]
    refine .one (totalFrames_countDown _) (fun frame => ?_) (balanced.take (mem_clearFrames.mpr ⟨inside, free⟩))
    rw [testBit, bitmap_countDown]
    exact bits frame
  · refine .one rfl bits (balanced.same rfl rfl fun frame => ?_)
    rw [bits]
    split_ifs with here
    · rw [here, (Bool.not_eq_false _).mp free]
    · rfl

theorem markFreeFrame_marks {m : Pmm} {i : Nat} (balanced : m.Balanced) (inside : i < m.totalFrames) :
    m.Marks (m.markFreeFrame i) [i] false := by
  have bits := testBit_clearBit m i
  unfold markFreeFrame
  split_ifs with used
  · exact .one rfl bits (balanced.give inside used)
  · refine .one rfl bits (balanced.same rfl rfl fun frame => ?_)
    rw [bits]
    split_ifs with here
    · rw [here, (Bool.not_eq_true _).mp used]
    · rfl

theorem markUsed_marks {m : Pmm} (balanced : m.Balanced) (addr length : Nat) : m.Marks (m.markUsed addr length)
      (List.range' (addr / 4096)
        (min ((addr + length + 4095) % 2 ^ 32 / 4096) m.totalFrames - addr / 4096)) true := by
  refine Marks.foldl markUsedFrame_marks _ balanced fun frame member => ?_
  rw [List.mem_range'_1] at member
  omega

theorem markFree_marks {m : Pmm} (balanced : m.Balanced) (addr length : Nat) : m.Marks (m.markFree addr length)
      (List.range' (addr / 4096)
        (min ((addr + length) % 2 ^ 32 / 4096) m.totalFrames - addr / 4096)) false := by
  refine Marks.foldl markFreeFrame_marks _ balanced fun frame member => ?_
  rw [List.mem_range'_1] at member
  omega

/-! ### Single frames -/

theorem freeFrame_marks {m : Pmm} {addr : Nat} (balanced : m.Balanced)
    (inside : addr / 4096 < m.totalFrames) (used : m.testBit (addr / 4096) = true) :
    m.Marks (m.freeFrame addr) [addr / 4096] false :=
  .one rfl (testBit_clearBit m _) (balanced.give inside used)

theorem freeFrames_marks {addrs : List Nat} {m : Pmm} (balanced : m.Balanced)
    (distinct : (addrs.map (· / 4096)).Nodup)
    (used : ∀ addr ∈ addrs, addr / 4096 < m.totalFrames ∧ m.testBit (addr / 4096) = true) :
    m.Marks (addrs.foldl freeFrame m) (addrs.map (· / 4096)) false := by
  induction addrs generalizing m with
  | nil => exact .nil balanced false
  | cons addr addrs ih =>
    obtain ⟨once, distinct⟩ := List.nodup_cons.mp distinct
    obtain ⟨inside, set⟩ := used addr List.mem_cons_self
    have first := freeFrame_marks balanced inside set
    refine first.trans (ih first.balanced distinct fun other member => ?_)
    obtain ⟨inside', set'⟩ := used other (List.mem_cons_of_mem _ member)
    refine ⟨first.total ▸ inside', ?_⟩
    rw [first.bits, if_neg, set']
    intro same
    exact once (List.mem_map.mpr ⟨other, member, List.mem_singleton.mp same⟩)

theorem allocFrame_of_none {m : Pmm} (none : m.clearFrames = ∅) : m.allocFrame = (0, m) := by
  unfold allocFrame
  rw [firstFree_eq_none.mpr none]

theorem allocFrame_freeFrames (m : Pmm) : m.freeFrames ≤ m.allocFrame.2.freeFrames + 1 := by
  unfold allocFrame
  split
  · exact Nat.le_succ _
  · rw [freeFrames_countDown]
    show m.freeFrames ≤ m.freeFrames - 1 + 1
    omega

/-- **`AllocFrame`**: nothing is clear, or the lowest clear frame is returned and marked. -/
theorem allocFrame_cases {m : Pmm} (balanced : m.Balanced) : (m.clearFrames = ∅ ∧ m.allocFrame = (0, m)) ∨
      ∃ frame ∈ m.clearFrames, (∀ lower < frame, lower ∉ m.clearFrames) ∧
        m.allocFrame.1 = frame * 4096 ∧ m.Marks m.allocFrame.2 [frame] true := by
  unfold allocFrame
  cases found : m.firstFree with
  | none => exact .inl ⟨firstFree_eq_none.mp found, rfl⟩
  | some frame =>
    obtain ⟨free, lowest⟩ := firstFree_eq_some.mp found
    have inside := (mem_clearFrames.mp free).1
    have small := balanced.small
    refine .inr ⟨frame, free, lowest, Nat.mod_eq_of_lt (by omega), ?_⟩
    refine .one (totalFrames_countDown _) (fun other => ?_) (balanced.take free)
    rw [testBit, bitmap_countDown]
    exact testBit_setBit m frame other

theorem alloc_ne_zero {m : Pmm} (balanced : m.Balanced) (zero : 0 ∉ m.clearFrames)
    (free : m.clearFrames ≠ ∅) : m.allocFrame.1 ≠ 0 := by
  rcases allocFrame_cases balanced with ⟨none, -⟩ | ⟨frame, clear, -, addr, -⟩
  · exact absurd none free
  · have positive : frame ≠ 0 := fun same => zero (same ▸ clear)
    rw [addr]
    exact Nat.mul_ne_zero positive (by decide)

theorem zero_of_alloc {m : Pmm} (balanced : m.Balanced) (found : m.allocFrame.1 ≠ 0) :
    0 ∉ m.clearFrames ∧ m.clearFrames ≠ ∅ := by
  rcases allocFrame_cases balanced with ⟨-, none⟩ | ⟨frame, clear, lowest, addr, -⟩
  · exact absurd (by rw [none]) found
  · refine ⟨lowest 0 (Nat.pos_of_ne_zero fun zero => found ?_), Finset.ne_empty_of_mem clear⟩
    rw [addr, zero, Nat.zero_mul]

theorem testBit_init (words : Bitmap 32) {memSize frame : Nat} (inside : frame < memSize / 4096) :
    (init words memSize).testBit frame = true := by
  rw [testBit, Bitmap.test_eq]
  show (if frame / 32 < (memSize / 4096 + 31) / 32 then 0xFFFFFFFF#32 else _).getLsbD _ = true
  rw [if_pos (by omega), show 0xFFFFFFFF#32 = BitVec.allOnes 32 from rfl, BitVec.getLsbD_allOnes]
  exact decide_eq_true (Nat.mod_lt frame (by decide))

theorem init_balanced (words : Bitmap 32) {memSize : Nat} (fits : memSize < 2 ^ 32) :
    (init words memSize).Balanced := by
  have none : (init words memSize).clearFrames = ∅ := by
    refine Finset.eq_empty_of_forall_notMem fun frame free => ?_
    obtain ⟨inside, unset⟩ := mem_clearFrames.mp free
    rw [testBit_init words inside] at unset
    cases unset
  refine ⟨by rw [none]; rfl, ?_⟩
  show memSize / 4096 < 2 ^ 20
  omega

end Pmm

end LaylaOS.Memory
