/-
**The kernel heap and user memory.**

The shell image, the shared network page and the user stacks are at fixed addresses between 4 and
13 MiB. The heap is laid where the longest region of the memory map is, from 2 MiB on.

* `heap_apart_iff` — the heap keeps out of user memory exactly if its region does.
-/

import LaylaOS.Kernel.Boot
import LaylaOS.Memory.HeapSafety

namespace LaylaOS.Kernel

open LaylaOS.Lib LaylaOS.Memory

/-- The addresses of user programs. -/
def userWindow : Set Nat := Set.Ico 0x00400000 0x00D00000

theorem first_mem_userWindow : 0x00400000 ∈ userWindow := Set.mem_Ico.mpr ⟨le_rfl, by norm_num⟩

/-- The bytes of a block: its header and the chunk behind it, which may go on at address 0. -/
def bytesOf (mem : Storage) (ptr : Nat) : Set Nat :=
  {place | ∃ offset < chunkSize + sizeOf mem (sub32 ptr chunkSize),
    (sub32 ptr chunkSize + offset) % 2 ^ 32 = place}

/-- The heap as `kernelMain` makes it, over any contents of the memory. -/
def BootMemory.heap (boot : BootMemory) (mem : Storage) : Usage :=
  ⟨memoryManager mem boot.heapStart boot.heapSize, []⟩

/-- No run of the heap hands out a block in the user window. -/
def BootMemory.ApartFromUsers (boot : BootMemory) : Prop :=
  ∀ (mem : Storage) (uses : List Use) (s : Usage),
    Steps (Step boot.heapStart) (boot.heap mem) uses s →
    ∀ block ∈ s.live, Disjoint (bytesOf s.mem block.1) userWindow

/-- The heap has a place for its first header, does not wrap at 4 GiB, and ends below the user window or
starts above it; or there is no heap. -/
def BootMemory.OutsideWindow (boot : BootMemory) : Prop :=
  boot.heapStart = 0 ∨ chunkSize ≤ boot.heapSize ∧ boot.heapStart + boot.heapSize ≤ 2 ^ 32 ∧
    (boot.heapStart + boot.heapSize ≤ 0x00400000 ∨ 0x00D00000 ≤ boot.heapStart)

instance (boot : BootMemory) : Decidable boot.OutsideWindow :=
  inferInstanceAs (Decidable (_ ∨ _))

variable {boot : BootMemory} {mem : Storage} {uses : List Use} {s : Usage}

/-! ### Blocks lie in the region -/

theorem findFit_first {first size : Nat} (positive : first ≠ 0) :
    findFit mem size (2 ^ 32) first = if allocatedOf mem first || sizeOf mem first < size then
      findFit mem size (2 ^ 32 - 1) (nextOf mem first) else some (some first) :=
  if_neg positive

theorem no_heap_live (run : Steps (Step 0) ⟨mem, []⟩ uses s) : s.live = [] := by
  have keeps : ∀ (s : Usage) use t, s.live = [] → Step 0 s use t → t.live = [] := by
    intro s use t none step
    cases step with
    | @malloc size ptr mem returned =>
      have failed : Memory.malloc s.mem 0 size = some (s.mem, 0) := rfl
      rw [failed] at returned
      cases returned
      exact none
    | free live => exact absurd (none ▸ live) List.not_mem_nil
    | store value live => exact absurd (none ▸ live) List.not_mem_nil
  exact run.invariant keeps rfl

/-- A heap of one header has one block, of no bytes. -/
structure HeaderOnly (start : Nat) (s : Usage) : Prop where
  prev : prevOf s.mem start = 0
  next : nextOf s.mem start = 0
  size : sizeOf s.mem start = 0
  live : ∀ block ∈ s.live, block = (start + chunkSize, 0) ∧ start + chunkSize < 2 ^ 32

theorem HeaderOnly.setAllocated {start : Nat} (bare : HeaderOnly start s) (used : Bool)
    (live : List (Nat × Nat))
    (kept : ∀ block ∈ live, block = (start + chunkSize, 0) ∧ start + chunkSize < 2 ^ 32) :
    HeaderOnly start ⟨setAllocated s.mem start used, live⟩ := by
  have same := headerAt_setAllocated s.mem start used
  exact ⟨(congrArg Header.prev same).trans bare.prev, (congrArg Header.next same).trans bare.next,
    (congrArg Header.size same).trans bare.size, kept⟩

theorem HeaderOnly.step {start : Nat} {use : Use} {t : Usage} (positive : 0 < start)
    (bound : start + chunkSize ≤ 2 ^ 32) (bare : HeaderOnly start s) (step : Step start s use t) :
    HeaderOnly start t := by
  cases step with
  | @malloc size ptr mem returned =>
    by_cases fits : allocatedOf s.mem start = false ∧ size = 0
    · obtain ⟨idle, rfl⟩ := fits
      have taken : Memory.malloc s.mem start 0 =
          some (Memory.setAllocated s.mem start true, (start + chunkSize) % 2 ^ 32) := by
        rw [Memory.malloc, findFit_first positive.ne', idle]
        simp [bare.size]
      rw [taken] at returned
      cases returned
      refine bare.setAllocated true _ ?_
      split_ifs with null
      · exact bare.live
      · have below : start + chunkSize < 2 ^ 32 := by
          by_contra wraps
          rw [show start + chunkSize = 2 ^ 32 by omega, Nat.mod_self] at null
          exact null rfl
        rw [Nat.mod_eq_of_lt below]
        exact List.forall_mem_cons.mpr ⟨⟨rfl, below⟩, bare.live⟩
    · have failed : Memory.malloc s.mem start size = some (s.mem, 0) := by
        have busy : (allocatedOf s.mem start || decide (sizeOf s.mem start < size)) = true := by
          rw [bare.size]
          cases idle : allocatedOf s.mem start with
          | true => rfl
          | false => simpa using Nat.pos_of_ne_zero fun none => fits ⟨idle, none⟩
        rw [Memory.malloc, findFit_first positive.ne', if_pos busy, bare.next]
        rfl
      rw [failed] at returned
      cases returned
      exact bare
  | @free ptr size live =>
    obtain ⟨same, below⟩ := bare.live _ live
    obtain ⟨rfl, rfl⟩ := Prod.mk.inj same
    have here : sub32 (start + chunkSize) chunkSize = start := by
      rw [sub32_eq (Nat.le_add_left _ _) below, Nat.add_sub_cancel]
    have freed := bare.setAllocated false (s.live.filter fun block => block.1 ≠ start + chunkSize)
      fun block member => bare.live block (List.mem_of_mem_filter member)
    have alone : Memory.free s.mem (start + chunkSize) = Memory.setAllocated s.mem start false := by
      have next := freed.next
      have prev := freed.prev
      dsimp only at next prev
      unfold Memory.free
      simp only [here, next, prev, ne_eq, not_true_eq_false, false_and, if_false]
    rw [alone]
    exact freed
  | @store ptr size place value live low high =>
    obtain ⟨rfl, rfl⟩ := Prod.mk.inj (bare.live _ live).1
    omega

theorem block_inside (positive : 0 < boot.heapStart) (room : chunkSize ≤ boot.heapSize)
    (bound : boot.heapStart + boot.heapSize ≤ 2 ^ 32)
    (run : Steps (Step boot.heapStart) (boot.heap mem) uses s) {block : Nat × Nat}
    (live : block ∈ s.live) :
    bytesOf s.mem block.1 ⊆ Set.Ico boot.heapStart (boot.heapStart + boot.heapSize) := by
  obtain ⟨chunk, place, below, low, high⟩ : ∃ chunk, block.1 = chunk + chunkSize ∧
      chunk + chunkSize < 2 ^ 32 ∧ boot.heapStart ≤ chunk ∧
      chunk + (chunkSize + sizeOf s.mem chunk) ≤ boot.heapStart + boot.heapSize := by
    rcases room.eq_or_lt with exact | room
    · have spec := memoryManager_spec mem boot.heapStart room (by omega)
      have bare : HeaderOnly boot.heapStart s := by
        refine run.invariant (fun _ _ _ bare step => bare.step positive (by omega) step) ?_
        exact ⟨congrArg Header.prev spec, congrArg Header.next spec,
          (congrArg Header.size spec).trans (Nat.sub_eq_zero_of_le exact.ge), nofun⟩
      obtain ⟨rfl, below⟩ := bare.live block live
      exact ⟨_, rfl, below, le_rfl, by rw [bare.size]; omega⟩
    · obtain ⟨blocks, owned⟩ := Owned.run positive room bound run
      obtain ⟨entry, member, place, -, -⟩ := owned.owns block live
      have bounds := areas_bounds member
      have inside := owned.heap.room entry.1 (List.mem_map_of_mem member)
      rw [owned.heap.total] at bounds
      refine ⟨entry.1, place, by omega, bounds.1, ?_⟩
      rw [owned.heap.sizeOf_eq member]
      omega
  rintro _ ⟨offset, inside, rfl⟩
  rw [place, sub32_eq (Nat.le_add_left _ _) below, Nat.add_sub_cancel] at inside ⊢
  rw [Nat.mod_eq_of_lt (by omega)]
  exact ⟨by omega, by omega⟩

/-! ### A request for the whole region -/

theorem malloc_first {first : Nat} (positive : first ≠ 0) (idle : allocatedOf mem first = false) :
    ∃ mem', malloc mem first (sizeOf mem first) = some (mem', (first + chunkSize) % 2 ^ 32) ∧
      sizeOf mem' first = sizeOf mem first := by
  have found : findFit mem (sizeOf mem first) (2 ^ 32) first = some (some first) := by
    rw [findFit_first positive, idle]
    simp
  have kept (m : Storage) : sizeOf (setAllocated m first true) first = sizeOf m first :=
    congrArg Header.size (headerAt_setAllocated m first true)
  rw [malloc, found]
  refine ⟨_, rfl, (kept _).trans ?_⟩
  split_ifs
  · -- a size near 4 GiB wraps in the test, and the chunk is cut; its size is stored last
    unfold splitChunk
    exact (readLE_writeLE _ _ _ 4).trans (Nat.mod_eq_of_lt (readLE_lt _ _ 4))
  · rfl

theorem whole_heap_taken (positive : boot.heapStart ≠ 0) (word : boot.heapStart < 2 ^ 32)
    (pointer : boot.heapStart + chunkSize ≠ 2 ^ 32) (mem : Storage) :
    ∃ uses s, Steps (Step boot.heapStart) (boot.heap mem) uses s ∧ ∃ block ∈ s.live,
      ∀ offset < chunkSize + sub32 boot.heapSize chunkSize,
        (boot.heapStart + offset) % 2 ^ 32 ∈ bytesOf s.mem block.1 := by
  have header : headerAt (boot.heap mem).mem boot.heapStart = ⟨0, 0, false, sub32 boot.heapSize chunkSize⟩ := by
    show headerAt (memoryManager mem boot.heapStart boot.heapSize) boot.heapStart = _
    unfold memoryManager
    have size : sub32 boot.heapSize chunkSize < 2 ^ 32 := Nat.mod_lt _ (by decide)
    rw [headerAt_setSize _ _ size, headerAt_setAllocated,
      headerAt_setNext _ _ (by decide), headerAt_setPrev _ _ (by decide)]
  obtain ⟨mem', taken, size⟩ := malloc_first positive (congrArg Header.allocated header)
  rw [show sizeOf (boot.heap mem).mem boot.heapStart = sub32 boot.heapSize chunkSize from
    congrArg Header.size header] at taken size
  have thirteen : chunkSize = 13 := rfl
  have back : sub32 ((boot.heapStart + chunkSize) % 2 ^ 32) chunkSize = boot.heapStart := by
    unfold sub32
    omega
  refine ⟨_, _, .cons (.malloc taken) (.nil _), ?_⟩
  rw [if_neg (by omega)]
  refine ⟨_, List.mem_cons_self, fun offset inside => ⟨offset, ?_, ?_⟩⟩
  · rw [back, size]
    exact inside
  · rw [back]

/-- A pointer behind a header in the last 13 bytes is 0: there the second chunk is the first one to be
handed out. -/
theorem second_chunk_taken {size : Nat} (known : size = 0xF8000D ∨ size = 0xFFF8000D) : ∃ s : Usage,
    Steps (Step 0xFFFFFFF3) ⟨memoryManager (fun _ => 0) 0xFFFFFFF3 size, []⟩
        [.malloc 16, .malloc (size - 42)] s ∧
      s.live = [(29, size - 42)] ∧ sizeOf s.mem 16 = size - 42 := by
  rcases known with rfl | rfl
  · have run := Steps.cons (Step.of_ptr ⟨memoryManager (fun _ => 0) 0xFFFFFFF3 0xF8000D, []⟩
        (show (malloc _ 0xFFFFFFF3 16).map Prod.snd = some 0 by decide +kernel))
      (.cons (Step.of_ptr _ (show (malloc _ 0xFFFFFFF3 (0xF8000D - 42)).map Prod.snd = some 29 by
        decide +kernel)) (.nil _))
    exact ⟨_, run, rfl, by decide +kernel⟩
  · have run := Steps.cons (Step.of_ptr ⟨memoryManager (fun _ => 0) 0xFFFFFFF3 0xFFF8000D, []⟩
        (show (malloc _ 0xFFFFFFF3 16).map Prod.snd = some 0 by decide +kernel))
      (.cons (Step.of_ptr _ (show (malloc _ 0xFFFFFFF3 (0xFFF8000D - 42)).map Prod.snd = some 29 by
        decide +kernel)) (.nil _))
    exact ⟨_, run, rfl, by decide +kernel⟩

theorem last_start_meets (start : boot.heapStart = 0xFFFFFFF3)
    (known : boot.heapSize = 0xF8000D ∨ boot.heapSize = 0xFFF8000D) : ¬ boot.ApartFromUsers := by
  intro apart
  obtain ⟨s, run, live, size⟩ := second_chunk_taken known
  have heap : boot.heap (fun _ => 0) = ⟨memoryManager (fun _ => 0) 0xFFFFFFF3 boot.heapSize, []⟩ := by
    rw [BootMemory.heap, start]
  rw [← heap, ← start] at run
  have disjoint := apart _ _ s run (29, boot.heapSize - 42) (by rw [live]; exact List.mem_cons_self)
  have thirteen : chunkSize = 13 := rfl
  have chunk : sub32 29 chunkSize = 16 := rfl
  refine Set.disjoint_left.mp disjoint ⟨0x00400000 - 16, ?_, ?_⟩ first_mem_userWindow
  · rw [chunk, size]
    omega
  · rw [chunk]
    norm_num

/-! ### The regions that `kernelMain` chooses -/

theorem memorySetup_cases (map : Option (List MemoryMapEntry)) :
    (memorySetup map).heapStart = 0 ∨ ∃ entry ∈ map.getD [], 0 < entry.clipped.2 ∧
      (memorySetup map).heapStart = entry.clipped.1 ∧
      (memorySetup map).heapSize = sub32 (if 0x01000000 < (entry.clipped.1 + entry.clipped.2) % 2 ^ 32
        then sub32 0x01000000 entry.clipped.1 else entry.clipped.2) pmmPoolSize := by
  cases map with
  | none => exact .inl rfl
  | some entries =>
    have scan := scan_eq entries
    cases longest : entries.argmax fun entry => entry.clipped.2 with
    | none =>
      rw [longest] at scan
      exact .inl (congrArg Prod.fst scan)
    | some entry =>
      rw [longest] at scan
      by_cases useful : 0 < entry.clipped.2
      · refine .inr ⟨entry, List.argmax_mem longest, useful, ?_, ?_⟩
        · exact congrArg Prod.fst (scan.trans (if_pos useful))
        · simp only [memorySetup, scan.trans (if_pos useful)]
      · exact .inl (congrArg Prod.fst (scan.trans (if_neg useful)))

/-- No usable region reaches over 4 GiB. -/
def EndsBelow4G (map : Option (List MemoryMapEntry)) : Prop :=
  ∀ entry ∈ map.getD [], entry.type = 1 → entry.baseAddr + entry.length % 2 ^ 32 ≤ 2 ^ 32

/-- **A region that wraps covers user memory**: above 15.5 MiB, the size that is left below 16 MiB, or
what is left of a region shorter than the pool, comes out as nearly 4 GiB. -/
theorem meets_window {start len : Nat} (low : 0x00200000 ≤ start) (word : start < 2 ^ 32)
    (some : 0 < len) (fits : start + len ≤ 2 ^ 32)
    (here : boot.heapStart = start) (size : boot.heapSize = sub32
      (if 0x01000000 < (start + len) % 2 ^ 32 then sub32 0x01000000 start else len) pmmPoolSize)
    (meets : ¬ boot.OutsideWindow) :
    ∃ offset < chunkSize + sub32 boot.heapSize chunkSize, (boot.heapStart + offset) % 2 ^ 32 ∈ userWindow := by
  have thirteen : chunkSize = 13 := rfl
  have pool := pmmPoolSize_eq
  unfold BootMemory.OutsideWindow at meets
  rw [here] at meets ⊢
  show ∃ offset < _, 0x00400000 ≤ _ ∧ _ < 0x00D00000
  unfold sub32 at *
  by_cases below : start < 0x00400000
  · refine ⟨0x00400000 - start, ?_, by omega, by omega⟩
    split_ifs at size <;> omega
  · by_cases within : start < 0x00D00000
    · exact ⟨0, by omega, by omega, by omega⟩
    · refine ⟨2 ^ 32 + 0x00400000 - start, ?_, by omega, by omega⟩
      split_ifs at size <;> omega

/-- **The heap keeps out of user memory** if its region does, and only if, for the maps whose regions end
below 4 GiB. -/
theorem heap_apart_iff (map : Option (List MemoryMapEntry)) :
    ((memorySetup map).OutsideWindow → (memorySetup map).ApartFromUsers) ∧
      (EndsBelow4G map → ((memorySetup map).ApartFromUsers ↔ (memorySetup map).OutsideWindow)) := by
  have outside : (memorySetup map).OutsideWindow → (memorySetup map).ApartFromUsers := by
    intro outside mem uses s run block live
    by_cases none : (memorySetup map).heapStart = 0
    · rw [BootMemory.heap, none] at run
      rw [no_heap_live run] at live
      cases live
    · obtain ⟨room, bound, sides⟩ := outside.resolve_left none
      refine Set.disjoint_left.mpr fun place inside window => ?_
      have := block_inside (Nat.pos_of_ne_zero none) room bound run live inside
      rw [Set.mem_Ico] at this
      rw [userWindow, Set.mem_Ico] at window
      omega
  refine ⟨outside, fun ends => ⟨fun apart => ?_, outside⟩⟩
  by_contra meets
  have positive : (memorySetup map).heapStart ≠ 0 := fun none => meets (.inl none)
  obtain ⟨entry, member, some, start, size⟩ := (memorySetup_cases map).resolve_left positive
  obtain ⟨type, low, -, word, -, -⟩ := clipped_spec some
  have fits : entry.clipped.1 + entry.clipped.2 ≤ 2 ^ 32 := by
    have := ends entry member type
    unfold MemoryMapEntry.clipped at *
    split_ifs at * <;> omega
  by_cases corner : (memorySetup map).heapStart + chunkSize = 2 ^ 32
  · have thirteen : chunkSize = 13 := rfl
    have pool := pmmPoolSize_eq
    refine last_start_meets (by omega) ?_ apart
    unfold sub32 at size
    split_ifs at size <;> omega
  · obtain ⟨uses, s, run, block, live, all⟩ := whole_heap_taken positive (by omega) corner fun _ => 0
    obtain ⟨offset, inside, window⟩ := meets_window low word some fits start size meets
    exact Set.disjoint_left.mp (apart _ uses s run block live) (all offset inside) window

/-- A machine with 4 MiB, the last quarter of a MiB of them reserved. -/
def smallMap : List MemoryMapEntry := [⟨0, 0x9FC00, 1⟩, ⟨0x100000, 0x2C0000, 1⟩, ⟨0x3C0000, 0x40000, 2⟩]

theorem heap_apart_small : (memorySetup (some smallMap)).ApartFromUsers :=
  (heap_apart_iff (some smallMap)).1 (by decide)

/-- A machine with 128 MiB. -/
def largeMap : List MemoryMapEntry := [⟨0, 0x9FC00, 1⟩, ⟨0x100000, 0x7EE0000, 1⟩]

/-- **A block in the user window**: the heap of a machine with 128 MiB is `[2 MiB, 15.5 MiB)`. -/
theorem heap_meets_user_window : ¬ ∀ map : Option (List MemoryMapEntry),
    (memorySetup map).heapStart ≠ 0 → (memorySetup map).ApartFromUsers := by
  intro claim
  obtain ⟨start, size⟩ : (memorySetup (some largeMap)).heapStart = 0x00200000 ∧
      (memorySetup (some largeMap)).heapSize = 0x00D80000 := by decide
  obtain ⟨uses, s, run, block, live, all⟩ := @whole_heap_taken (memorySetup (some largeMap))
    (by omega) (by omega) (by rw [start]; decide) fun _ => 0
  have apart := claim _ (by omega) _ uses s run block live
  have inside := all 0x00200000 (by rw [size]; decide)
  rw [start] at inside
  exact Set.disjoint_left.mp apart inside first_mem_userWindow

end LaylaOS.Kernel
