/-
**The kernel heap** (`memory/memorymanagement.cpp`).

Chunk headers lie in the managed memory itself: a packed `MemoryChunk` is `prev`, `next`, the byte
`allocated` and `size`, 13 bytes in all. Pointers and sizes are 32 bits wide.
-/

import LaylaOS.Lib.Bytes

namespace LaylaOS.Memory

open LaylaOS.Lib

/-- `sizeof(MemoryChunk)`. -/
def chunkSize : Nat := 13

/-! ### Fields -/

def prevOf (mem : Storage) (chunk : Nat) : Nat := readLE mem chunk 4

def nextOf (mem : Storage) (chunk : Nat) : Nat := readLE mem (chunk + 4) 4

def allocatedOf (mem : Storage) (chunk : Nat) : Bool := readLE mem (chunk + 8) 1 != 0

def sizeOf (mem : Storage) (chunk : Nat) : Nat := readLE mem (chunk + 9) 4

def setPrev (mem : Storage) (chunk value : Nat) : Storage := writeLE mem chunk value 4

def setNext (mem : Storage) (chunk value : Nat) : Storage := writeLE mem (chunk + 4) value 4

def setAllocated (mem : Storage) (chunk : Nat) (value : Bool) : Storage :=
  writeLE mem (chunk + 8) value.toNat 1

def setSize (mem : Storage) (chunk value : Nat) : Storage := writeLE mem (chunk + 9) value 4

/-! ### Operations -/

/-- Subtraction of 32-bit numbers. -/
def sub32 (a b : Nat) : Nat := (a + 2 ^ 32 - b) % 2 ^ 32

theorem sub32_eq {a b : Nat} (le : b ≤ a) (word : a < 2 ^ 32) : sub32 a b = a - b := by
  unfold sub32
  rw [show a + 2 ^ 32 - b = a - b + 2 ^ 32 by omega, Nat.add_mod_right, Nat.mod_eq_of_lt (by omega)]

/-- The constructor. -/
def memoryManager (mem : Storage) (start size : Nat) : Storage :=
  let mem := setPrev mem start 0
  let mem := setNext mem start 0
  let mem := setAllocated mem start false
  setSize mem start (sub32 size chunkSize)

/-- The scan of `malloc`: the first free chunk that is large enough. It reads `next` from memory, so
on a damaged heap it may never end, which is `none`; after `2 ^ 32` rounds it has met a chunk
twice. -/
def findFit (mem : Storage) (size : Nat) : Nat → Nat → Option (Option Nat)
  | 0, _ => none
  | fuel + 1, chunk =>
    if chunk = 0 then some none
    else if allocatedOf mem chunk || sizeOf mem chunk < size then
      findFit mem size fuel (nextOf mem chunk)
    else some (some chunk)

/-- The branch of `malloc` that makes a new chunk of what is left. -/
def splitChunk (mem : Storage) (chunk size : Nat) : Storage :=
  let newChunk := (chunk + chunkSize + size) % 2 ^ 32
  let mem := setSize mem newChunk (sub32 (sub32 (sizeOf mem chunk) size) chunkSize)
  let mem := setPrev mem newChunk chunk
  let mem := setNext mem newChunk (nextOf mem chunk)
  let mem := setAllocated mem newChunk false
  let mem := if nextOf mem chunk ≠ 0 then setPrev mem (nextOf mem chunk) newChunk else mem
  let mem := setNext mem chunk newChunk
  setSize mem chunk size

def malloc (mem : Storage) (first size : Nat) : Option (Storage × Nat) := do
  match ← findFit mem size (2 ^ 32) first with
  | none => return (mem, 0)
  | some chunk =>
    let mem := if (size + chunkSize) % 2 ^ 32 < sizeOf mem chunk then splitChunk mem chunk size
      else mem
    return (setAllocated mem chunk true, (chunk + chunkSize) % 2 ^ 32)

/-- The first branch of `free`: the next chunk is free and joins this one. -/
def joinNext (mem : Storage) (chunk : Nat) : Storage :=
  let mem := setSize mem chunk (sizeOf mem chunk + (chunkSize + sizeOf mem (nextOf mem chunk)))
  let mem := setNext mem chunk (nextOf mem (nextOf mem chunk))
  if nextOf mem chunk ≠ 0 then setPrev mem (nextOf mem chunk) chunk else mem

/-- The second branch of `free`: the chunk joins the previous one, which is free. -/
def joinPrev (mem : Storage) (chunk : Nat) : Storage :=
  let mem := setSize mem (prevOf mem chunk)
    (sizeOf mem (prevOf mem chunk) + (chunkSize + sizeOf mem chunk))
  let mem := setNext mem (prevOf mem chunk) (nextOf mem chunk)
  if nextOf mem chunk ≠ 0 then setPrev mem (nextOf mem chunk) (prevOf mem chunk) else mem

def free (mem : Storage) (ptr : Nat) : Storage :=
  let chunk := sub32 ptr chunkSize
  let mem := setAllocated mem chunk false
  let mem := if nextOf mem chunk ≠ 0 ∧ allocatedOf mem (nextOf mem chunk) = false then
    joinNext mem chunk else mem
  if prevOf mem chunk ≠ 0 ∧ allocatedOf mem (prevOf mem chunk) = false then joinPrev mem chunk
  else mem

/-! ### Headers -/

/-- The contents of a `MemoryChunk`. -/
structure Header where
  prev : Nat
  next : Nat
  allocated : Bool
  size : Nat
  deriving DecidableEq, Repr

def headerAt (mem : Storage) (chunk : Nat) : Header :=
  ⟨prevOf mem chunk, nextOf mem chunk, allocatedOf mem chunk, sizeOf mem chunk⟩

/-- `mem'` differs from `mem` in the headers at `chunks` only. -/
def Writes (mem mem' : Storage) (chunks : List Nat) : Prop :=
  ∀ place, (∀ chunk ∈ chunks, place < chunk ∨ chunk + chunkSize ≤ place) → mem' place = mem place

theorem Writes.trans {mem mem' mem'' : Storage} {chunks chunks' : List Nat}
    (first : Writes mem mem' chunks) (second : Writes mem' mem'' chunks') :
    Writes mem mem'' (chunks ++ chunks') := by
  intro place outside
  rw [second place fun chunk member => outside chunk (List.mem_append_right _ member),
    first place fun chunk member => outside chunk (List.mem_append_left _ member)]

theorem Writes.mono {mem mem' : Storage} {chunks chunks' : List Nat} (writes : Writes mem mem' chunks)
    (subset : chunks ⊆ chunks') : Writes mem mem' chunks' :=
  fun place outside => writes place fun chunk member => outside chunk (subset member)

theorem headerAt_congr {mem mem' : Storage} {chunk : Nat}
    (same : ∀ place, chunk ≤ place → place < chunk + chunkSize → mem' place = mem place) :
    headerAt mem' chunk = headerAt mem chunk := by
  have thirteen : chunkSize = 13 := rfl
  unfold headerAt prevOf nextOf allocatedOf sizeOf
  rw [readLE_congr fun place low high => same place (by omega) (by omega),
    readLE_congr fun place low high => same place (by omega) (by omega),
    readLE_congr fun place low high => same place (by omega) (by omega),
    readLE_congr fun place low high => same place (by omega) (by omega)]

theorem Writes.headerAt {mem mem' : Storage} {chunks : List Nat} {other : Nat} (writes : Writes mem mem' chunks)
    (apart : ∀ chunk ∈ chunks, other + chunkSize ≤ chunk ∨ chunk + chunkSize ≤ other) :
    headerAt mem' other = headerAt mem other := by
  refine headerAt_congr fun place low high => writes place fun chunk member => ?_
  have := apart chunk member
  omega

variable (mem : Storage) (chunk value : Nat)

theorem writeLE_writes {offset width : Nat} (inside : offset + width ≤ chunkSize) :
    Writes mem (writeLE mem (chunk + offset) value width) [chunk] := by
  intro place outside
  have := outside chunk List.mem_cons_self
  exact writeLE_outside (by omega)

theorem setPrev_writes : Writes mem (setPrev mem chunk value) [chunk] :=
  writeLE_writes mem chunk value (show 0 + 4 ≤ chunkSize by decide)

theorem setNext_writes : Writes mem (setNext mem chunk value) [chunk] :=
  writeLE_writes mem chunk value (by decide)

theorem setAllocated_writes (used : Bool) : Writes mem (setAllocated mem chunk used) [chunk] :=
  writeLE_writes mem chunk _ (by decide)

theorem setSize_writes : Writes mem (setSize mem chunk value) [chunk] :=
  writeLE_writes mem chunk value (by decide)

section Stored

variable {value} (word : value < 2 ^ 32)
include word

theorem headerAt_setPrev :
    headerAt (setPrev mem chunk value) chunk = { headerAt mem chunk with prev := value } := by
  unfold headerAt prevOf nextOf allocatedOf sizeOf setPrev
  rw [readLE_writeLE, readLE_writeLE_apart (by omega), readLE_writeLE_apart (by omega),
    readLE_writeLE_apart (by omega), Nat.mod_eq_of_lt (by omega)]

theorem headerAt_setNext :
    headerAt (setNext mem chunk value) chunk = { headerAt mem chunk with next := value } := by
  unfold headerAt prevOf nextOf allocatedOf sizeOf setNext
  rw [readLE_writeLE, readLE_writeLE_apart (by omega), readLE_writeLE_apart (by omega),
    readLE_writeLE_apart (by omega), Nat.mod_eq_of_lt (by omega)]

theorem headerAt_setSize :
    headerAt (setSize mem chunk value) chunk = { headerAt mem chunk with size := value } := by
  unfold headerAt prevOf nextOf allocatedOf sizeOf setSize
  rw [readLE_writeLE, readLE_writeLE_apart (by omega), readLE_writeLE_apart (by omega),
    readLE_writeLE_apart (by omega), Nat.mod_eq_of_lt (by omega)]

end Stored

theorem headerAt_setAllocated (used : Bool) :
    headerAt (setAllocated mem chunk used) chunk = { headerAt mem chunk with allocated := used } := by
  unfold headerAt prevOf nextOf allocatedOf sizeOf setAllocated
  rw [readLE_writeLE, readLE_writeLE_apart (by omega), readLE_writeLE_apart (by omega),
    readLE_writeLE_apart (by omega)]
  cases used <;> rfl

/-! ### What the operations do to headers -/

/-- The header behind a `next` pointer, if there is one. -/
def linked (next : Nat) : List Nat := if next = 0 then [] else [next]

theorem mem_linked {next chunk : Nat} : chunk ∈ linked next ↔ next ≠ 0 ∧ chunk = next := by
  unfold linked
  split <;> simp_all

theorem relink_writes (next prev : Nat) :
    Writes mem (if next ≠ 0 then setPrev mem next prev else mem) (linked next) := by
  unfold linked
  by_cases null : next = 0
  · rw [if_neg (not_not.mpr null), if_pos null]
    exact fun _ _ => rfl
  · rw [if_pos null, if_neg null]
    exact setPrev_writes mem next prev

theorem relink_headerAt (next : Nat) {prev : Nat} (word : prev < 2 ^ 32) (linked : next ≠ 0) :
    headerAt (if next ≠ 0 then setPrev mem next prev else mem) next =
      { headerAt mem next with prev := prev } := by
  rw [if_pos linked]
  exact headerAt_setPrev mem next word

/-- The chunk at `chunk` has been cut behind `size` bytes. -/
structure Split (mem mem' : Storage) (chunk size : Nat) : Prop where
  own : headerAt mem' chunk =
    { headerAt mem chunk with next := chunk + chunkSize + size, size := size }
  fresh : headerAt mem' (chunk + chunkSize + size) = ⟨chunk, (headerAt mem chunk).next, false,
    (headerAt mem chunk).size - size - chunkSize⟩
  link : (headerAt mem chunk).next ≠ 0 → headerAt mem' (headerAt mem chunk).next =
    { headerAt mem (headerAt mem chunk).next with prev := chunk + chunkSize + size }
  writes : Writes mem mem'
    (chunk :: (chunk + chunkSize + size) :: linked (headerAt mem chunk).next)

/-- The chunk at `next` has become part of the one at `chunk`. -/
structure Joined (mem mem' : Storage) (chunk next : Nat) : Prop where
  own : headerAt mem' chunk = { headerAt mem chunk with
    next := (headerAt mem next).next
    size := (headerAt mem chunk).size + (chunkSize + (headerAt mem next).size) }
  link : (headerAt mem next).next ≠ 0 → headerAt mem' (headerAt mem next).next =
    { headerAt mem (headerAt mem next).next with prev := chunk }
  writes : Writes mem mem' (chunk :: linked (headerAt mem next).next)

theorem newHeader_spec {prev next size : Nat} (used : Bool) (prevWord : prev < 2 ^ 32)
    (nextWord : next < 2 ^ 32) (sizeWord : size < 2 ^ 32) :
    headerAt (setAllocated (setNext (setPrev (setSize mem chunk size) chunk prev) chunk next)
        chunk used) chunk = ⟨prev, next, used, size⟩ ∧
      Writes mem (setAllocated (setNext (setPrev (setSize mem chunk size) chunk prev) chunk next)
        chunk used) [chunk] := by
  constructor
  · rw [headerAt_setAllocated, headerAt_setNext _ _ nextWord, headerAt_setPrev _ _ prevWord,
      headerAt_setSize _ _ sizeWord]
  · refine Writes.mono ((((setSize_writes mem chunk size).trans (setPrev_writes _ chunk prev)).trans
      (setNext_writes _ chunk next)).trans (setAllocated_writes _ chunk used)) ?_
    simp

theorem memoryManager_spec {size : Nat} (room : chunkSize ≤ size) (word : size < 2 ^ 32) :
    headerAt (memoryManager mem chunk size) chunk = ⟨0, 0, false, size - chunkSize⟩ := by
  unfold memoryManager
  rw [sub32_eq room word, headerAt_setSize _ _ (by omega), headerAt_setAllocated,
    headerAt_setNext _ _ (by decide), headerAt_setPrev _ _ (by decide)]

variable {mem chunk}

theorem splitChunk_spec {size : Nat} (fits : size + chunkSize < sizeOf mem chunk)
    (inside : chunk + chunkSize + sizeOf mem chunk ≤ 2 ^ 32)
    (tiled : nextOf mem chunk = 0 ∨ nextOf mem chunk = chunk + chunkSize + sizeOf mem chunk) :
    Split mem (splitChunk mem chunk size) chunk size := by
  have thirteen : chunkSize = 13 := rfl
  have nextWord : nextOf mem chunk < 2 ^ 32 := readLE_lt mem (chunk + 4) 4
  obtain ⟨new, place⟩ : ∃ new, new = chunk + chunkSize + size := ⟨_, rfl⟩
  have wraps : (chunk + chunkSize + size) % 2 ^ 32 = new := by
    rw [place, Nat.mod_eq_of_lt (by omega)]
  have rest : sub32 (sub32 (sizeOf mem chunk) size) chunkSize = sizeOf mem chunk - size - chunkSize := by
    have inner : sub32 (sizeOf mem chunk) size = sizeOf mem chunk - size := sub32_eq (by omega) (by omega)
    rw [inner, sub32_eq (by omega) (by omega)]
  -- the new header, written first, lies behind the old one and in front of the next
  have apart : ∀ other ∈ [new], chunk + chunkSize ≤ other ∨ other + chunkSize ≤ chunk := by
    intro other member
    rw [List.mem_singleton.mp member]
    omega
  have early : nextOf (setPrev (setSize mem new (sizeOf mem chunk - size - chunkSize)) new chunk) chunk =
      nextOf mem chunk :=
    congrArg Header.next ((((setSize_writes mem new _).trans (setPrev_writes _ new chunk)).mono
      (by simp)).headerAt apart)
  obtain ⟨made, writes⟩ := newHeader_spec mem new false (show chunk < 2 ^ 32 by omega) nextWord
    (show sizeOf mem chunk - size - chunkSize < 2 ^ 32 by omega)
  rw [splitChunk, wraps, rest, early]
  generalize setAllocated (setNext (setPrev (setSize mem new (sizeOf mem chunk - size - chunkSize))
    new chunk) new (nextOf mem chunk)) new false = m at made writes ⊢
  have kept : headerAt m chunk = headerAt mem chunk := writes.headerAt apart
  have next : nextOf m chunk = nextOf mem chunk := congrArg Header.next kept
  have behind : ∀ other ∈ linked (nextOf mem chunk), new + chunkSize ≤ other := by
    intro other member
    obtain ⟨some, rfl⟩ := mem_linked.mp member
    omega
  have relinked := relink_writes m (nextOf mem chunk) new
  have back := relink_headerAt m (nextOf mem chunk) (show new < 2 ^ 32 by omega)
  rw [next]
  generalize (if nextOf mem chunk ≠ 0 then setPrev m (nextOf mem chunk) new else m) = m' at relinked back ⊢
  have last : Writes m' (setSize (setNext m' chunk new) chunk size) [chunk] :=
    ((setNext_writes m' chunk new).trans (setSize_writes _ chunk size)).mono (by simp)
  have beside : ∀ other, new ≤ other →
      headerAt (setSize (setNext m' chunk new) chunk size) other = headerAt m' other :=
    fun other low => last.headerAt fun c member => by
      rw [List.mem_singleton.mp member]
      omega
  refine ⟨?_, ?_, fun some => ?_, ?_⟩
  · rw [headerAt_setSize _ _ (by omega), headerAt_setNext _ _ (by omega),
      relinked.headerAt fun c member => .inl (by have := behind c member; omega), kept, place]
  · rw [← place, beside new le_rfl, relinked.headerAt fun c member => .inl (behind c member), made]
    rfl
  · have low := behind _ (mem_linked.mpr ⟨some, rfl⟩)
    show headerAt _ (nextOf mem chunk) = _
    rw [beside _ (by omega), back some, writes.headerAt fun c member => ?_, place]
    · rfl
    · rw [List.mem_singleton.mp member]
      exact .inr low
  · refine ((writes.trans relinked).trans last).mono fun c member => ?_
    rw [← place]
    show c ∈ chunk :: new :: linked (nextOf mem chunk)
    simpa [or_comm, or_left_comm] using member

/-- The join of two chunks with every field read beforehand: both branches of `free` compute it. -/
def join (mem : Storage) (chunk next : Nat) : Storage :=
  let mem' := setNext (setSize mem chunk (sizeOf mem chunk + (chunkSize + sizeOf mem next))) chunk
    (nextOf mem next)
  if nextOf mem next ≠ 0 then setPrev mem' (nextOf mem next) chunk else mem'

theorem joinNext_eq (behind : chunk + chunkSize ≤ nextOf mem chunk)
    (word : sizeOf mem chunk + (chunkSize + sizeOf mem (nextOf mem chunk)) < 2 ^ 32) :
    joinNext mem chunk = join mem chunk (nextOf mem chunk) := by
  have nextWord : nextOf mem (nextOf mem chunk) < 2 ^ 32 := readLE_lt mem (nextOf mem chunk + 4) 4
  unfold joinNext join
  generalize sizeOf mem chunk + (chunkSize + sizeOf mem (nextOf mem chunk)) = size at word ⊢
  have own : nextOf (setSize mem chunk size) chunk = nextOf mem chunk :=
    congrArg Header.next (headerAt_setSize mem chunk word)
  have apart : ∀ other ∈ [chunk], nextOf mem chunk + chunkSize ≤ other ∨ other + chunkSize ≤ nextOf mem chunk :=
    fun other member => .inr (by rwa [List.mem_singleton.mp member])
  have beside : nextOf (setSize mem chunk size) (nextOf mem chunk) = nextOf mem (nextOf mem chunk) :=
    (congrArg Header.next ((setSize_writes mem chunk size).headerAt apart) :)
  have stored : nextOf (setNext (setSize mem chunk size) chunk (nextOf mem (nextOf mem chunk))) chunk =
      nextOf mem (nextOf mem chunk) :=
    congrArg Header.next (headerAt_setNext _ chunk nextWord)
  simp only [own, beside, stored]

theorem joinPrev_eq (front : prevOf mem chunk + chunkSize ≤ chunk) :
    joinPrev mem chunk = join mem (prevOf mem chunk) chunk := by
  unfold joinPrev join
  generalize sizeOf mem (prevOf mem chunk) + (chunkSize + sizeOf mem chunk) = size
  have apart : ∀ other ∈ [prevOf mem chunk], chunk + chunkSize ≤ other ∨ other + chunkSize ≤ chunk :=
    fun other member => .inr (by rwa [List.mem_singleton.mp member])
  have first := (setSize_writes mem (prevOf mem chunk) size).headerAt apart
  have second := (setNext_writes (setSize mem (prevOf mem chunk) size) (prevOf mem chunk)
    (nextOf mem chunk)).headerAt apart
  have prev : prevOf (setSize mem (prevOf mem chunk) size) chunk = prevOf mem chunk :=
    congrArg Header.prev first
  have next : nextOf (setSize mem (prevOf mem chunk) size) chunk = nextOf mem chunk :=
    congrArg Header.next first
  have prev' := congrArg Header.prev second
  have next' := congrArg Header.next second
  simp only [headerAt] at prev' next'
  simp only [prev, next, prev', next']

theorem join_spec {next : Nat} (behind : chunk + chunkSize ≤ next)
    (tiled : nextOf mem next = 0 ∨ next ≤ nextOf mem next) (low : chunk < 2 ^ 32)
    (word : sizeOf mem chunk + (chunkSize + sizeOf mem next) < 2 ^ 32) :
    Joined mem (join mem chunk next) chunk next := by
  have nextWord : nextOf mem next < 2 ^ 32 := readLE_lt mem (next + 4) 4
  have own := headerAt_setNext (setSize mem chunk (sizeOf mem chunk + (chunkSize + sizeOf mem next)))
    chunk nextWord
  rw [headerAt_setSize mem chunk word] at own
  have writes : Writes mem (setNext (setSize mem chunk (sizeOf mem chunk +
      (chunkSize + sizeOf mem next))) chunk (nextOf mem next)) [chunk] :=
    ((setSize_writes mem chunk _).trans (setNext_writes _ chunk _)).mono (by simp)
  unfold join
  generalize setNext (setSize mem chunk (sizeOf mem chunk + (chunkSize + sizeOf mem next))) chunk
    (nextOf mem next) = m at own writes ⊢
  have far : ∀ other ∈ linked (nextOf mem next), chunk + chunkSize ≤ other := by
    intro other member
    obtain ⟨some, rfl⟩ := mem_linked.mp member
    omega
  have relinked := relink_writes m (nextOf mem next) chunk
  have back := relink_headerAt m (nextOf mem next) low
  generalize (if nextOf mem next ≠ 0 then setPrev m (nextOf mem next) chunk else m) = m' at relinked back ⊢
  refine ⟨?_, fun some => ?_, writes.trans relinked⟩
  · rw [relinked.headerAt fun c member => .inl (far c member), own]
    rfl
  · show headerAt m' (nextOf mem next) = _
    rw [back some, writes.headerAt fun c member => ?_]
    · rfl
    · rw [List.mem_singleton.mp member]
      exact .inr (far _ (mem_linked.mpr ⟨some, rfl⟩))

end LaylaOS.Memory
