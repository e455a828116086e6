/-
**Marking ranges of addresses** (`MarkUsed`, `MarkFree`).

A range of bytes need not begin or end with a frame. To mark it used means every frame with a byte in
it, to mark it free every frame that lies in it; both count the bits that change.

* `marking_iff` — when they do that. Both round the begin of the range down, and both compute its end
  in 32 bits.
-/

import LaylaOS.Memory.Pmm

namespace LaylaOS.Memory.Pmm

open LaylaOS.Lib

/-- The frames with a byte in a range of addresses. -/
def touched (m : Pmm) (addr length : Nat) : Finset Nat :=
  {frame ∈ Finset.range m.totalFrames | frame * 4096 < addr + length ∧ addr < (frame + 1) * 4096}

/-- The frames that lie in a range of addresses. -/
def contained (m : Pmm) (addr length : Nat) : Finset Nat :=
  {frame ∈ Finset.range m.totalFrames | addr ≤ frame * 4096 ∧ (frame + 1) * 4096 ≤ addr + length}

/-- The bits in which two states differ. -/
def changed (m m' : Pmm) : Finset Nat :=
  {frame ∈ Finset.range m.totalFrames | m'.testBit frame ≠ m.testBit frame}

/-- The frames are used afterwards, no other bit changes, and the counter goes down by the number of
bits that changed. -/
structure MarksUsed (m m' : Pmm) (frames : Finset Nat) : Prop where
  bits : ∀ frame, m'.testBit frame = if frame ∈ frames then true else m.testBit frame
  counted : m'.freeFrames + (m.changed m').card = m.freeFrames

/-- The frames are free afterwards, no other bit changes, and the counter goes up by the number of bits
that changed. -/
structure MarksFree (m m' : Pmm) (frames : Finset Nat) : Prop where
  bits : ∀ frame, m'.testBit frame = if frame ∈ frames then false else m.testBit frame
  counted : m'.freeFrames = m.freeFrames + (m.changed m').card

theorem mem_touched {m : Pmm} {addr length frame : Nat} : frame ∈ m.touched addr length ↔
      frame < m.totalFrames ∧ frame * 4096 < addr + length ∧ addr < (frame + 1) * 4096 := by
  rw [touched, Finset.mem_filter, Finset.mem_range]

theorem mem_contained {m : Pmm} {addr length frame : Nat} : frame ∈ m.contained addr length ↔
      frame < m.totalFrames ∧ addr ≤ frame * 4096 ∧ (frame + 1) * 4096 ≤ addr + length := by
  rw [contained, Finset.mem_filter, Finset.mem_range]

/-! ### A loop over frames -/

/-- The listed bits get a value, and the counter is moved once for each that did not have it. -/
structure Sweeps (value : Bool) (move : Nat → Nat) (m m' : Pmm) (frames : List Nat) : Prop where
  total : m'.totalFrames = m.totalFrames
  bits : ∀ frame, m'.testBit frame = if frame ∈ frames then value else m.testBit frame
  counter : m'.freeFrames = move^[frames.countP fun frame => m.testBit frame != value] m.freeFrames

variable {value : Bool} {move : Nat → Nat} {m m' m'' : Pmm} {frames : List Nat}

theorem Sweeps.cons {frame : Nat} (first : Sweeps value move m m' [frame])
    (rest : Sweeps value move m' m'' frames) (once : frame ∉ frames) :
    Sweeps value move m m'' (frame :: frames) := by
  have same : (frames.countP fun other => m'.testBit other != value) =
      frames.countP fun other => m.testBit other != value := by
    apply List.countP_congr
    intro other member
    have apart : other ∉ [frame] := fun here => once (List.mem_singleton.mp here ▸ member)
    rw [first.bits, if_neg apart]
  refine ⟨rest.total.trans first.total, fun other => ?_, ?_⟩
  · rw [rest.bits, first.bits]
    by_cases here : other = frame <;> by_cases later : other ∈ frames <;> simp [here, later]
  · rw [rest.counter, same, first.counter, ← Function.iterate_add_apply, List.countP_singleton,
      List.countP_cons]

theorem Sweeps.foldl {body : Pmm → Nat → Pmm}
    (each : ∀ (m : Pmm) (i : Nat), Sweeps value move m (body m i) [i]) (distinct : frames.Nodup)
    (m : Pmm) : Sweeps value move m (frames.foldl body m) frames := by
  induction frames generalizing m with
  | nil => exact ⟨rfl, fun frame => (if_neg List.not_mem_nil).symm, rfl⟩
  | cons frame frames ih =>
    obtain ⟨once, distinct⟩ := List.nodup_cons.mp distinct
    exact (each m frame).cons (ih distinct (body m frame)) once

theorem changed_of_bits {marked : Finset Nat} (inside : ∀ frame ∈ marked, frame < m.totalFrames)
    (bits : ∀ frame, m'.testBit frame = if frame ∈ marked then value else m.testBit frame) :
    m.changed m' = {frame ∈ marked | m.testBit frame ≠ value} := by
  ext frame
  rw [changed, Finset.mem_filter, Finset.mem_filter, Finset.mem_range, bits]
  by_cases member : frame ∈ marked
  · rw [if_pos member]
    exact ⟨fun differ => ⟨member, differ.2.symm⟩, fun differ => ⟨inside frame member, differ.2.symm⟩⟩
  · rw [if_neg member]
    exact iff_of_false (fun differ => differ.2 rfl) (fun differ => member differ.1)

theorem Sweeps.counter_changed (sweeps : Sweeps value move m m' frames) (distinct : frames.Nodup)
    (inside : ∀ frame ∈ frames, frame < m.totalFrames) :
    m'.freeFrames = move^[(m.changed m').card] m.freeFrames := by
  have marked : m.changed m' = {frame ∈ frames.toFinset | m.testBit frame ≠ value} := by
    apply changed_of_bits
    · exact fun frame member => inside frame (List.mem_toFinset.mp member)
    · intro frame
      simp only [sweeps.bits frame, List.mem_toFinset]
  have count : (m.changed m').card = frames.countP fun frame => m.testBit frame != value := by
    rw [marked, List.countP_eq_length_filter, ← List.toFinset_card_of_nodup (distinct.filter _),
      List.toFinset_filter]
    simp only [bne_iff_ne]
  rw [count, sweeps.counter]

theorem markUsedFrame_sweeps (m : Pmm) (i : Nat) : Sweeps true Nat.pred m (m.markUsedFrame i) [i] := by
  have bits (frame : Nat) : (m.setBit i).testBit frame = if frame ∈ [i] then true else m.testBit frame := by
    rw [testBit_setBit]
    simp only [List.mem_singleton]
  unfold markUsedFrame
  split_ifs with clear
  · refine ⟨totalFrames_countDown m, fun frame => ?_, ?_⟩
    · rw [countDown_setBit, testBit, bitmap_countDown]
      exact bits frame
    · rw [countDown_setBit, freeFrames_countDown, List.countP_singleton, clear]
      rfl
  · refine ⟨rfl, bits, ?_⟩
    rw [List.countP_singleton, (Bool.not_eq_false _).mp clear]
    rfl

theorem markFreeFrame_sweeps (m : Pmm) (i : Nat) :
    Sweeps false (fun count => (count + 1) % 2 ^ 32) m (m.markFreeFrame i) [i] := by
  have bits (frame : Nat) : (m.clearBit i).testBit frame = if frame ∈ [i] then false else m.testBit frame := by
    rw [testBit_clearBit]
    simp only [List.mem_singleton]
  unfold markFreeFrame
  split_ifs with used
  · refine ⟨rfl, bits, ?_⟩
    rw [List.countP_singleton, used]
    rfl
  · refine ⟨rfl, bits, ?_⟩
    rw [List.countP_singleton, (Bool.not_eq_true _).mp used]
    rfl

/-! ### The two operations -/

/-- The frames of a loop from one frame to another, stopped at the number of frames. -/
def swept (m : Pmm) (start stop : Nat) : List Nat := List.range' start (min stop m.totalFrames - start)

theorem mem_swept {start stop frame : Nat} :
    frame ∈ m.swept start stop ↔ start ≤ frame ∧ frame < stop ∧ frame < m.totalFrames := by
  rw [swept, List.mem_range'_1]
  omega

theorem swept_nodup (m : Pmm) (start stop : Nat) : (m.swept start stop).Nodup := List.nodup_range'

theorem swept_zero (m : Pmm) (start : Nat) : m.swept start 0 = [] := by
  rw [swept, Nat.zero_min, Nat.zero_sub]
  rfl

theorem iterate_countUp (count steps : Nat) (small : count < 2 ^ 32) :
    (fun count => (count + 1) % 2 ^ 32)^[steps] count = (count + steps) % 2 ^ 32 := by
  induction steps with
  | zero => exact (Nat.mod_eq_of_lt small).symm
  | succ steps ih => rw [Function.iterate_succ_apply', ih, Nat.mod_add_mod, Nat.add_assoc]

theorem markUsed_sweeps (m : Pmm) (addr length : Nat) : Sweeps true Nat.pred m (m.markUsed addr length)
      (m.swept (addr / 4096) ((addr + length + 4095) % 2 ^ 32 / 4096)) :=
  .foldl markUsedFrame_sweeps (swept_nodup ..) m

theorem markFree_sweeps (m : Pmm) (addr length : Nat) :
    Sweeps false (fun count => (count + 1) % 2 ^ 32) m (m.markFree addr length)
      (m.swept (addr / 4096) ((addr + length) % 2 ^ 32 / 4096)) :=
  .foldl markFreeFrame_sweeps (swept_nodup ..) m

theorem markUsed_freeFrames (m : Pmm) (addr length : Nat) : (m.markUsed addr length).freeFrames =
      m.freeFrames - (m.changed (m.markUsed addr length)).card := by
  rw [(markUsed_sweeps m addr length).counter_changed (swept_nodup ..)
    fun frame member => (mem_swept.mp member).2.2, Nat.pred_iterate]

theorem markFree_freeFrames (addr length : Nat) (small : m.freeFrames < 2 ^ 32) :
    (m.markFree addr length).freeFrames =
      (m.freeFrames + (m.changed (m.markFree addr length)).card) % 2 ^ 32 := by
  rw [(markFree_sweeps m addr length).counter_changed (swept_nodup ..)
    fun frame member => (mem_swept.mp member).2.2, iterate_countUp _ _ small]

/-! ### Rounding -/

variable {addr length : Nat}

theorem changed_of_touched {m' : Pmm}
    (bits : ∀ frame, m'.testBit frame = if frame ∈ m.touched addr length then true else m.testBit frame) :
    m.changed m' = {frame ∈ m.touched addr length | m.testBit frame = false} := by
  rw [changed_of_bits (fun frame member => (mem_touched.mp member).1) bits]
  simp only [ne_eq, Bool.not_eq_true]

theorem changed_of_contained {m' : Pmm} (bits : ∀ frame,
      m'.testBit frame = if frame ∈ m.contained addr length then false else m.testBit frame) :
    m.changed m' = {frame ∈ m.contained addr length | m.testBit frame = true} := by
  rw [changed_of_bits (fun frame member => (mem_contained.mp member).1) bits]
  simp only [ne_eq, Bool.not_eq_false]

/-- Short of the last bytes of the address space the loop of `MarkUsed` runs over the frames with a
byte in the range. -/
theorem mem_swept_markUsed (below : addr + length + 4095 < 2 ^ 32) {frame : Nat} :
    frame ∈ m.swept (addr / 4096) ((addr + length + 4095) % 2 ^ 32 / 4096) ↔ frame ∈ m.touched addr length := by
  rw [mem_swept, mem_touched, Nat.mod_eq_of_lt below]
  omega

theorem swept_markUsed_of_wrap (range : addr + length ≤ 2 ^ 32) (wraps : 2 ^ 32 ≤ addr + length + 4095) :
    m.swept (addr / 4096) ((addr + length + 4095) % 2 ^ 32 / 4096) = [] := by
  rw [show (addr + length + 4095) % 2 ^ 32 / 4096 = 0 by omega]
  exact swept_zero m _

theorem mem_swept_markFree (below : addr + length < 2 ^ 32) {frame : Nat} :
    frame ∈ m.swept (addr / 4096) ((addr + length) % 2 ^ 32 / 4096) ↔ frame ∈ m.contained addr length ∨
        addr % 4096 ≠ 0 ∧ (addr / 4096 + 1) * 4096 ≤ addr + length ∧ frame = addr / 4096 ∧
          addr / 4096 < m.totalFrames := by
  rw [mem_swept, mem_contained, Nat.mod_eq_of_lt below]
  omega

theorem swept_markFree_of_wrap (wraps : addr + length = 2 ^ 32) :
    m.swept (addr / 4096) ((addr + length) % 2 ^ 32 / 4096) = [] := by
  rw [wraps]
  exact swept_zero m _

theorem markUsed_bits_iff (range : addr + length ≤ 2 ^ 32) : (∀ frame, (m.markUsed addr length).testBit frame =
      if frame ∈ m.touched addr length then true else m.testBit frame) ↔
      (2 ^ 32 ≤ addr + length + 4095 → ∀ frame ∈ m.touched addr length, m.testBit frame = true) := by
  have bits := (markUsed_sweeps m addr length).bits
  rcases Nat.lt_or_ge (addr + length + 4095) (2 ^ 32) with below | wraps
  · refine iff_of_true (fun frame => ?_) fun wraps => absurd below (not_lt.mpr wraps)
    rw [bits frame]
    simp only [mem_swept_markUsed below]
  · have kept (frame : Nat) : (m.markUsed addr length).testBit frame = m.testBit frame := by
      rw [bits frame, swept_markUsed_of_wrap range wraps, if_neg List.not_mem_nil]
    refine ⟨fun marked _ frame member => ?_, fun used frame => ?_⟩
    · rw [← kept, marked frame, if_pos member]
    · rw [kept]
      split
      · next member => exact used wraps frame member
      · rfl

theorem markUsed_iff (range : addr + length ≤ 2 ^ 32) :
    m.MarksUsed (m.markUsed addr length) (m.touched addr length) ↔
      {frame ∈ m.touched addr length | m.testBit frame = false}.card ≤ m.freeFrames ∧
        (2 ^ 32 ≤ addr + length + 4095 → ∀ frame ∈ m.touched addr length, m.testBit frame = true) := by
  have counter := markUsed_freeFrames m addr length
  rw [← markUsed_bits_iff range]
  constructor
  · rintro ⟨marked, counted⟩
    rw [← changed_of_touched marked]
    exact ⟨by omega, marked⟩
  · rintro ⟨enough, marked⟩
    rw [← changed_of_touched marked] at enough
    exact ⟨marked, by omega⟩

theorem markFree_bits_iff (range : addr + length ≤ 2 ^ 32) : (∀ frame, (m.markFree addr length).testBit frame =
      if frame ∈ m.contained addr length then false else m.testBit frame) ↔
      (addr + length = 2 ^ 32 → ∀ frame ∈ m.contained addr length, m.testBit frame = false) ∧
        (addr % 4096 ≠ 0 → addr + length < 2 ^ 32 → (addr / 4096 + 1) * 4096 ≤ addr + length →
          addr / 4096 < m.totalFrames → m.testBit (addr / 4096) = false) := by
  have bits := (markFree_sweeps m addr length).bits
  rcases Nat.lt_or_eq_of_le range with below | wraps
  · refine ⟨fun marked => ⟨fun wraps => absurd wraps below.ne, fun unaligned _ reaches inside => ?_⟩, ?_⟩
    · -- the frame the range begins in does not lie in it, and is freed
      have outside : addr / 4096 ∉ m.contained addr length := by
        rw [mem_contained]
        omega
      have freed := bits (addr / 4096)
      rw [if_pos ((mem_swept_markFree below).mpr (.inr ⟨unaligned, reaches, rfl, inside⟩))] at freed
      rw [← freed, marked, if_neg outside]
    · rintro ⟨-, begins⟩ frame
      rw [bits frame]
      by_cases member : frame ∈ m.contained addr length
      · rw [if_pos ((mem_swept_markFree below).mpr (.inl member)), if_pos member]
      · rw [if_neg member]
        split
        · next swept =>
            obtain member' | ⟨unaligned, reaches, rfl, inside⟩ := (mem_swept_markFree below).mp swept
            · exact absurd member' member
            · exact (begins unaligned below reaches inside).symm
        · rfl
  · have kept (frame : Nat) : (m.markFree addr length).testBit frame = m.testBit frame := by
      rw [bits frame, swept_markFree_of_wrap wraps, if_neg List.not_mem_nil]
    refine ⟨fun marked => ⟨fun _ frame member => ?_, fun _ below => absurd wraps below.ne⟩, ?_⟩
    · rw [← kept, marked frame, if_pos member]
    · rintro ⟨free, -⟩ frame
      rw [kept]
      split
      · next member => exact free wraps frame member
      · rfl

theorem markFree_iff (small : m.freeFrames < 2 ^ 32) (range : addr + length ≤ 2 ^ 32) :
    m.MarksFree (m.markFree addr length) (m.contained addr length) ↔
      m.freeFrames + {frame ∈ m.contained addr length | m.testBit frame = true}.card < 2 ^ 32 ∧
        (addr + length = 2 ^ 32 → ∀ frame ∈ m.contained addr length, m.testBit frame = false) ∧
        (addr % 4096 ≠ 0 → addr + length < 2 ^ 32 → (addr / 4096 + 1) * 4096 ≤ addr + length →
          addr / 4096 < m.totalFrames → m.testBit (addr / 4096) = false) := by
  have counter := markFree_freeFrames addr length small
  rw [← markFree_bits_iff range]
  constructor
  · rintro ⟨marked, counted⟩
    rw [← changed_of_contained marked]
    exact ⟨by omega, marked⟩
  · rintro ⟨enough, marked⟩
    rw [← changed_of_contained marked] at enough
    exact ⟨marked, by rw [counter, Nat.mod_eq_of_lt enough]⟩

/-- **When marking a range rounds conservatively.** `MarkUsed` marks the frames with a byte in the range
and counts them exactly when the counter is no smaller than their number and, where the range ends in
the last frame of the address space, there is nothing to mark. `MarkFree` marks the frames in the range
and counts them exactly when the counter does not overflow, there is nothing to mark where the range
ends the address space, and a range that begins inside a frame does not begin in a used one whose end it
reaches. -/
theorem marking_iff (m : Pmm) (addr length : Nat) (small : m.freeFrames < 2 ^ 32)
    (range : addr + length ≤ 2 ^ 32) :
    (m.MarksUsed (m.markUsed addr length) (m.touched addr length) ↔
      {frame ∈ m.touched addr length | m.testBit frame = false}.card ≤ m.freeFrames ∧
        (2 ^ 32 ≤ addr + length + 4095 → ∀ frame ∈ m.touched addr length, m.testBit frame = true)) ∧
      (m.MarksFree (m.markFree addr length) (m.contained addr length) ↔
        m.freeFrames + {frame ∈ m.contained addr length | m.testBit frame = true}.card < 2 ^ 32 ∧
          (addr + length = 2 ^ 32 → ∀ frame ∈ m.contained addr length, m.testBit frame = false) ∧
          (addr % 4096 ≠ 0 → addr + length < 2 ^ 32 → (addr / 4096 + 1) * 4096 ≤ addr + length →
            addr / 4096 < m.totalFrames → m.testBit (addr / 4096) = false)) :=
  ⟨markUsed_iff range, markFree_iff small range⟩

/-- Two frames of sixteen are marked used, and two used ones free. -/
theorem marking_sixteen :
    (Pmm.mk (fun _ => 0#32) 16 16).MarksUsed ((Pmm.mk (fun _ => 0#32) 16 16).markUsed 8191 2)
        ((Pmm.mk (fun _ => 0#32) 16 16).touched 8191 2) ∧
      (init (fun _ => 0#32) 65536).MarksFree ((init (fun _ => 0#32) 65536).markFree 8192 8192)
        ((init (fun _ => 0#32) 65536).contained 8192 8192) := by
  refine ⟨(marking_iff _ 8191 2 (by decide) (by decide)).1.mpr ⟨by decide, ?_⟩,
    (marking_iff _ 8192 8192 (by decide) (by decide)).2.mpr ⟨by decide, ?_, ?_⟩⟩
  · exact fun wraps => absurd wraps (by decide)
  · exact fun wraps => absurd wraps (by decide)
  · exact fun unaligned => absurd rfl unaligned

/-- A free frame below the last one of the address space stays free when a range that begins with it
and ends one byte behind it is marked used, and a frame with half its bytes in a range is freed. -/
theorem marking_rounds_wrong : ¬ (Pmm.mk (fun _ => 0#32) 0xFFFFF 0xFFFFF).MarksUsed
        ((Pmm.mk (fun _ => 0#32) 0xFFFFF 0xFFFFF).markUsed 0xFFFFE000 0x1001)
        ((Pmm.mk (fun _ => 0#32) 0xFFFFF 0xFFFFF).touched 0xFFFFE000 0x1001) ∧
      ¬ (init (fun _ => 0#32) 16384).MarksFree ((init (fun _ => 0#32) 16384).markFree 2048 4096)
        ((init (fun _ => 0#32) 16384).contained 2048 4096) := by
  constructor
  · intro marks
    have used := marks.bits 0xFFFFE
    rw [if_pos (mem_touched.mpr (by decide))] at used
    exact absurd used (by decide)
  · intro marks
    have kept := marks.bits 0
    rw [if_neg (mt mem_contained.mp (by decide))] at kept
    exact absurd kept (by decide)

end LaylaOS.Memory.Pmm
