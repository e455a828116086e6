/-
**The memory that `kernelMain` carves out** (`kernel/kernel.cpp`).

The memory map is the list of its entries; a `uint64_t` is a number, what the code keeps of it in a
`uint32_t` is taken modulo 4 GiB.

* `carvesOut_iff` — that is so exactly if the longest region `Fits`.
-/

import LaylaOS.Memory.Heap
import LaylaOS.Memory.Pmm

namespace LaylaOS.Kernel

open LaylaOS.Memory LaylaOS.Lib

/-- `MemoryMapEntry`. -/
structure MemoryMapEntry where
  baseAddr : Nat
  length : Nat
  type : Nat
  deriving DecidableEq, Repr

/-- `PMM_POOL_SIZE`. -/
def pmmPoolSize : Nat := 128 * 4096

/-- The body of the scan: `heap_start` and `heap_size` after one entry. -/
def scanEntry (heap : Nat × Nat) (entry : MemoryMapEntry) : Nat × Nat :=
  if entry.type = 1 ∧ entry.baseAddr < 0xFFFFFFFF then
    let base := entry.baseAddr % 2 ^ 32
    let len := entry.length % 2 ^ 32
    if base < 0x00200000 then
      let delta := 0x00200000 - base
      if len ≤ delta then heap
      else if heap.2 < len - delta then (0x00200000, len - delta) else heap
    else if heap.2 < len then (base, len) else heap
  else heap

/-- What `kernelMain` gives to the heap and to the frame pool. -/
structure BootMemory where
  heapStart : Nat
  heapSize : Nat
  pmmPoolBase : Nat
  deriving DecidableEq, Repr

/-- The memory setup of `kernelMain`; the map is there if bit 6 of the multiboot flags is set. -/
def memorySetup (map : Option (List MemoryMapEntry)) : BootMemory :=
  let heap := match map with
    | none => (0, 0)
    | some entries => entries.foldl scanEntry (0, 0)
  let size := if 0x01000000 < (heap.1 + heap.2) % 2 ^ 32 then sub32 0x01000000 heap.1 else heap.2
  { heapStart := heap.1
    heapSize := sub32 size pmmPoolSize
    pmmPoolBase := sub32 ((heap.1 + size) % 2 ^ 32) pmmPoolSize }

/-- The frame manager after its `Init` and `MarkFree`. -/
def BootMemory.pmm (boot : BootMemory) (words : Bitmap 32) (memUpper : Nat) : Pmm :=
  (Pmm.init words ((memUpper * 1024 + 0x100000) % 2 ^ 32)).markFree boot.pmmPoolBase pmmPoolSize

/-- The manager after some `AllocFrame` calls. -/
def afterAllocs (m : Pmm) : Nat → Pmm
  | 0 => m
  | n + 1 => (afterAllocs m n).allocFrame.2

/-- The bytes `[start, start + size)` belong to the entry's region. -/
def MemoryMapEntry.Covers (entry : MemoryMapEntry) (start size : Nat) : Prop :=
  entry.type = 1 ∧ entry.baseAddr ≤ start ∧ start + size ≤ entry.baseAddr + entry.length

/-- The bytes lie between 2 MiB and 16 MiB. -/
def InHeapWindow (start size : Nat) : Prop := 0x00200000 ≤ start ∧ start + size ≤ 0x01000000

/-- Heap and pool do not wrap, lie in one usable region and in the window, and no frame that
`AllocFrame` returns has a byte of the heap. -/
structure CarvesOut (entries : List MemoryMapEntry) (boot : BootMemory) : Prop where
  heapFits : boot.heapStart + boot.heapSize ≤ 2 ^ 32
  poolFits : boot.pmmPoolBase + pmmPoolSize ≤ 2 ^ 32
  region : ∃ entry ∈ entries, entry.Covers boot.heapStart boot.heapSize ∧
    entry.Covers boot.pmmPoolBase pmmPoolSize
  heapWindow : InHeapWindow boot.heapStart boot.heapSize
  poolWindow : InHeapWindow boot.pmmPoolBase pmmPoolSize
  frames : ∀ words memUpper n, ∀ addr, (afterAllocs (boot.pmm words memUpper) n).allocFrame.1 = addr →
    addr ≠ 0 → ∀ byte, addr ≤ byte → byte < addr + 4096 →
    ¬ (boot.heapStart ≤ byte ∧ byte < boot.heapStart + boot.heapSize)

/-! ### The scan -/

/-- The start and the length of a region above 2 MiB as the scan sees it, with length `0` if the entry
is of no use. -/
def MemoryMapEntry.clipped (entry : MemoryMapEntry) : Nat × Nat :=
  if entry.type = 1 ∧ entry.baseAddr < 0xFFFFFFFF then
    (max entry.baseAddr 0x00200000, entry.length % 2 ^ 32 - (0x00200000 - entry.baseAddr))
  else (0, 0)

theorem scanEntry_eq (heap : Nat × Nat) (entry : MemoryMapEntry) :
    scanEntry heap entry = if heap.2 < entry.clipped.2 then entry.clipped else heap := by
  unfold scanEntry MemoryMapEntry.clipped
  split_ifs with useful longer longer
  · have base : entry.baseAddr % 2 ^ 32 = entry.baseAddr := Nat.mod_eq_of_lt (by omega)
    simp only [base]
    by_cases low : entry.baseAddr < 0x00200000
    · rw [if_pos low, if_neg (by omega), if_pos longer, max_eq_right low.le]
    · rw [if_neg low, if_pos (by omega), max_eq_left (by omega),
        show 0x00200000 - entry.baseAddr = 0 by omega, Nat.sub_zero]
  · have base : entry.baseAddr % 2 ^ 32 = entry.baseAddr := Nat.mod_eq_of_lt (by omega)
    simp only [base]
    by_cases low : entry.baseAddr < 0x00200000
    · rw [if_pos low]
      split_ifs
      · rfl
      · rfl
    · rw [if_neg low, if_neg (by omega)]
  · simp at longer
  · rfl

theorem scan_eq (entries : List MemoryMapEntry) : entries.foldl scanEntry (0, 0) =
    match entries.argmax fun entry => entry.clipped.2 with
    | none => (0, 0)
    | some entry => if 0 < entry.clipped.2 then entry.clipped else (0, 0) := by
  induction entries using List.reverseRecOn with
  | nil => rfl
  | append_singleton entries entry ih =>
    rw [List.foldl_append, ih, List.argmax_concat, List.foldl_cons, List.foldl_nil, scanEntry_eq]
    cases entries.argmax fun entry => entry.clipped.2 with
    | none => rfl
    | some best =>
      dsimp only
      by_cases better : best.clipped.2 < entry.clipped.2
      · have some : 0 < entry.clipped.2 := by omega
        rw [if_pos better]
        show _ = if 0 < entry.clipped.2 then entry.clipped else (0, 0)
        rw [if_pos some]
        split_ifs <;> rfl
      · rw [if_neg better]
        show _ = if 0 < best.clipped.2 then best.clipped else (0, 0)
        split_ifs with old longer
        · rfl
        · have : 0 < entry.clipped.2 := longer
          omega
        · rfl

/-- A region that heap and pool fit into: it reaches over 16 MiB and starts 512 KiB below it, or ends
below 16 MiB on a frame boundary; a region of 512 KiB is all pool. -/
def Fits (start len : Nat) : Prop :=
  (0x01000000 < (start + len) % 2 ^ 32 ∧ start + pmmPoolSize ≤ 0x01000000) ∨
    (start + len ≤ 0x01000000 ∧ pmmPoolSize ≤ len ∧ ((start + len) % 4096 = 0 ∨ len = pmmPoolSize))

instance (start len : Nat) : Decidable (Fits start len) := inferInstanceAs (Decidable (_ ∨ _))

theorem clipped_spec {entry : MemoryMapEntry} (some : 0 < entry.clipped.2) :
    entry.type = 1 ∧ 0x00200000 ≤ entry.clipped.1 ∧ entry.baseAddr ≤ entry.clipped.1 ∧
      entry.clipped.1 < 2 ^ 32 ∧ entry.clipped.2 < 2 ^ 32 ∧
      entry.clipped.1 + entry.clipped.2 ≤ entry.baseAddr + entry.length := by
  unfold MemoryMapEntry.clipped at *
  split_ifs at some ⊢ with useful
  · dsimp only at *
    have short := Nat.mod_le entry.length (2 ^ 32)
    omega
  · cases some

/-! ### The frames -/

theorem afterAllocs_spec {m : Pmm} (balanced : m.Balanced) (n : Nat) :
    (afterAllocs m n).Balanced ∧ (afterAllocs m n).clearFrames ⊆ m.clearFrames := by
  induction n with
  | zero => exact ⟨balanced, Finset.Subset.refl _⟩
  | succ n ih =>
    obtain ⟨balanced, subset⟩ := ih
    rcases Pmm.allocFrame_cases balanced with ⟨-, full⟩ | ⟨frame, -, -, -, marks⟩
    · rw [afterAllocs, full]
      exact ⟨balanced, subset⟩
    · refine ⟨marks.balanced, fun other clear => subset ?_⟩
      rw [afterAllocs] at clear
      obtain ⟨inside, unset⟩ := Pmm.mem_clearFrames.mp clear
      rw [marks.bits] at unset
      split_ifs at unset with taken
      exact Pmm.mem_clearFrames.mpr ⟨by rwa [← marks.total], unset⟩

theorem pmm_clearFrames (boot : BootMemory) (words : Bitmap 32) (memUpper : Nat)
    (fits : boot.pmmPoolBase + pmmPoolSize < 2 ^ 32) :
    (boot.pmm words memUpper).Balanced ∧ ∀ frame, frame ∈ (boot.pmm words memUpper).clearFrames ↔
      boot.pmmPoolBase / 4096 ≤ frame ∧ frame < (boot.pmmPoolBase + pmmPoolSize) / 4096 ∧
        frame < (memUpper * 1024 + 0x100000) % 2 ^ 32 / 4096 := by
  have small : (memUpper * 1024 + 0x100000) % 2 ^ 32 < 2 ^ 32 := Nat.mod_lt _ (by decide)
  have marks := Pmm.markFree_marks (Pmm.init_balanced words small) boot.pmmPoolBase pmmPoolSize
  refine ⟨marks.balanced, fun frame => ?_⟩
  rw [Pmm.mem_clearFrames]
  unfold BootMemory.pmm
  rw [marks.total, marks.bits, Nat.mod_eq_of_lt fits]
  show frame < (memUpper * 1024 + 0x100000) % 2 ^ 32 / 4096 ∧ _ ↔ _
  constructor
  · rintro ⟨inside, unset⟩
    split_ifs at unset with freed
    · rw [List.mem_range'_1] at freed
      omega
    · rw [Pmm.testBit_init words inside] at unset
      cases unset
  · rintro ⟨first, last, inside⟩
    refine ⟨inside, if_pos ?_⟩
    rw [List.mem_range'_1]
    show _ ∧ frame < boot.pmmPoolBase / 4096 +
      (min _ ((memUpper * 1024 + 0x100000) % 2 ^ 32 / 4096) - boot.pmmPoolBase / 4096)
    omega

/-! ### When the carve-out works -/

theorem pmmPoolSize_eq : pmmPoolSize = 0x80000 := rfl

theorem carvesOut_of {entries : List MemoryMapEntry} {entry : MemoryMapEntry} {start size : Nat}
    (member : entry ∈ entries) (covers : entry.Covers start size) (low : 0x00200000 ≤ start)
    (high : start + size ≤ 0x01000000) (room : pmmPoolSize ≤ size)
    (aligned : (start + size) % 4096 = 0 ∨ size = pmmPoolSize) :
    CarvesOut entries { heapStart := start, heapSize := size - pmmPoolSize,
                        pmmPoolBase := start + size - pmmPoolSize } := by
  obtain ⟨usable, first, last⟩ := covers
  have pool := pmmPoolSize_eq
  refine ⟨?_, ?_, ⟨entry, member, ⟨usable, first, ?_⟩, ⟨usable, ?_, ?_⟩⟩, ⟨low, ?_⟩, ⟨?_, ?_⟩, ?frames⟩
  case frames =>
    intro words memUpper n addr returned some byte above below
    obtain ⟨balanced, clear⟩ := pmm_clearFrames
      { heapStart := start, heapSize := size - pmmPoolSize, pmmPoolBase := start + size - pmmPoolSize }
      words memUpper (by dsimp only; omega)
    obtain ⟨balanced', subset⟩ := afterAllocs_spec balanced n
    rcases Pmm.allocFrame_cases balanced' with ⟨-, full⟩ | ⟨frame, free, -, address, -⟩
    · rw [full] at returned
      exact absurd returned.symm some
    · have inPool := ((clear frame).mp (subset free)).1
      rw [returned] at address
      dsimp only at inPool ⊢
      omega
  all_goals dsimp only; omega

theorem memorySetup_eq {entries : List MemoryMapEntry} {start len : Nat}
    (first : (entries.foldl scanEntry (0, 0)).1 = start)
    (second : (entries.foldl scanEntry (0, 0)).2 = len) : memorySetup (some entries) =
      { heapStart := start
        heapSize := sub32 (if 0x01000000 < (start + len) % 2 ^ 32 then sub32 0x01000000 start else len)
          pmmPoolSize
        pmmPoolBase := sub32 ((start + if 0x01000000 < (start + len) % 2 ^ 32 then
          sub32 0x01000000 start else len) % 2 ^ 32) pmmPoolSize } := by
  unfold memorySetup
  simp only [first, second]

theorem carvesOut_of_fits {entries : List MemoryMapEntry} {entry : MemoryMapEntry}
    (member : entry ∈ entries) (useful : 0 < entry.clipped.2)
    (scan : entries.foldl scanEntry (0, 0) = entry.clipped)
    (fits : Fits entry.clipped.1 entry.clipped.2) : CarvesOut entries (memorySetup (some entries)) := by
  obtain ⟨usable, low, first, startSmall, lenSmall, last⟩ := clipped_spec useful
  have pool := pmmPoolSize_eq
  rw [memorySetup_eq (congrArg Prod.fst scan) (congrArg Prod.snd scan)]
  generalize entry.clipped.1 = start at *
  generalize entry.clipped.2 = len at *
  -- the part of the region below 16 MiB
  obtain ⟨size, same, short, high, room, aligned⟩ : ∃ size,
      (if 0x01000000 < (start + len) % 2 ^ 32 then sub32 0x01000000 start else len) = size ∧
      size ≤ len ∧ start + size ≤ 0x01000000 ∧ pmmPoolSize ≤ size ∧
      ((start + size) % 4096 = 0 ∨ size = pmmPoolSize) := by
    rcases fits with ⟨beyond, room⟩ | ⟨under, room, aligned⟩
    · refine ⟨0x01000000 - start, ?_, by omega, by omega, by omega, .inl (by omega)⟩
      rw [if_pos beyond, sub32_eq (by omega) (by decide)]
    · refine ⟨len, if_neg ?_, Nat.le_refl _, under, room, aligned⟩
      omega
  have works := carvesOut_of member ⟨usable, first, by omega⟩ low high room aligned
  have heap : sub32 size pmmPoolSize = size - pmmPoolSize := sub32_eq room (by omega)
  have base : sub32 ((start + size) % 2 ^ 32) pmmPoolSize = start + size - pmmPoolSize := by
    rw [Nat.mod_eq_of_lt (by omega), sub32_eq (by omega) (by omega)]
  rw [same, heap, base]
  exact works

theorem aligned_of_frames {entries : List MemoryMapEntry} {boot : BootMemory}
    (works : CarvesOut entries boot) (below : boot.heapStart + boot.heapSize = boot.pmmPoolBase) :
    boot.pmmPoolBase % 4096 = 0 ∨ boot.heapSize = 0 := by
  obtain ⟨-, -, -, -, ⟨low, high⟩, frames⟩ := works
  have pool := pmmPoolSize_eq
  by_contra unaligned
  obtain ⟨balanced, clear⟩ := pmm_clearFrames boot (fun _ => 0#32) 0xFC00 (by omega)
  have first : boot.pmmPoolBase / 4096 ∈ (boot.pmm (fun _ => 0#32) 0xFC00).clearFrames :=
    (clear _).mpr (by omega)
  rcases Pmm.allocFrame_cases balanced with ⟨none, -⟩ | ⟨frame, free, lowest, address, -⟩
  · rw [none] at first
    cases first
  · have inPool := (clear frame).mp free
    have same : frame = boot.pmmPoolBase / 4096 := by
      by_contra differs
      exact lowest _ (by omega) first
    refine frames (fun _ => 0#32) 0xFC00 0 _ address (by omega) (boot.pmmPoolBase - 1) ?_ ?_ ?_
    all_goals omega

theorem fits_of_carvesOut {entries : List MemoryMapEntry} {start len : Nat}
    (first : (entries.foldl scanEntry (0, 0)).1 = start)
    (second : (entries.foldl scanEntry (0, 0)).2 = len) (startSmall : start < 2 ^ 32)
    (lenSmall : len < 2 ^ 32) (works : CarvesOut entries (memorySetup (some entries))) :
    Fits start len := by
  rw [memorySetup_eq first second] at works
  have aligned := aligned_of_frames works
  obtain ⟨-, -, -, ⟨low, heap⟩, ⟨-, pool⟩, -⟩ := works
  have size := pmmPoolSize_eq
  unfold Fits
  by_cases beyond : 0x01000000 < (start + len) % 2 ^ 32
  · simp only [if_pos beyond, sub32] at low heap pool
    left
    omega
  · simp only [if_neg beyond, sub32] at low heap pool aligned
    right
    omega

/-- **The carve-out of `kernelMain` works** exactly if the first of the longest regions fits. -/
theorem carvesOut_iff (entries : List MemoryMapEntry) : CarvesOut entries (memorySetup (some entries)) ↔
      ∃ entry ∈ entries.argmax fun entry => entry.clipped.2, Fits entry.clipped.1 entry.clipped.2 := by
  have scan := scan_eq entries
  constructor
  · intro works
    have low : 0x00200000 ≤ (entries.foldl scanEntry (0, 0)).1 := works.heapWindow.1
    cases longest : entries.argmax fun entry => entry.clipped.2 with
    | none =>
      simp only [longest] at scan
      rw [scan] at low
      cases low
    | some entry =>
      refine ⟨entry, rfl, ?_⟩
      simp only [longest] at scan
      split_ifs at scan with useful
      · obtain ⟨-, -, -, startSmall, lenSmall, -⟩ := clipped_spec useful
        exact fits_of_carvesOut (congrArg Prod.fst scan) (congrArg Prod.snd scan) startSmall lenSmall works
      · rw [scan] at low
        cases low
  · rintro ⟨entry, longest, fits⟩
    have pool := pmmPoolSize_eq
    have useful : 0 < entry.clipped.2 := by
      rcases fits with ⟨beyond, room⟩ | ⟨-, room, -⟩
      · by_contra none
        rw [Nat.eq_zero_of_not_pos none] at beyond
        omega
      · omega
    refine carvesOut_of_fits (List.argmax_mem longest) useful ?_ fits
    rw [Option.mem_def] at longest
    simpa only [longest, if_pos useful] using scan

/-- 128 MiB with a hole between 15 and 16 MiB. -/
def holeAt15 : List MemoryMapEntry :=
  [{ baseAddr := 0, length := 0x9FC00, type := 1 },
    { baseAddr := 0x100000, length := 0xE00000, type := 1 },
    { baseAddr := 0xF00000, length := 0x100000, type := 2 },
    { baseAddr := 0x1000000, length := 0x7000000, type := 1 }]

/-- **The longest region lies above 16 MiB**: the cap leaves a heap of size `0 - 512 KiB`. -/
theorem high_region_wraps : ¬ ∀ entries : List MemoryMapEntry,
    (∃ entry ∈ entries, entry.type = 1 ∧ max entry.baseAddr 0x00200000 + 0x100000 ≤
      min (entry.baseAddr + entry.length) 0x01000000) →
    CarvesOut entries (memorySetup (some entries)) := by
  intro claim
  have window := (claim holeAt15 ⟨{ baseAddr := 0x100000, length := 0xE00000, type := 1 }, by decide,
    by decide, by decide⟩).heapWindow
  revert window
  unfold InHeapWindow
  decide

end LaylaOS.Kernel
