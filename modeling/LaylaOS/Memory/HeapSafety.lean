/-
**Heap safety.**

A program asks the heap for blocks, stores into the ones it has and gives them back. `heap_safety`:
whatever it does in this way, the chunk list tiles the region, the live blocks are large enough, lie
in the region and meet neither each other nor a header, and no call stores into one of them.
-/

import Mathlib
import LaylaOS.Lib.Steps
import LaylaOS.Memory.HeapLayout

namespace LaylaOS.Memory

open LaylaOS.Lib

/-- What a program does with the heap. -/
inductive Use
  | malloc (size : Nat)
  | free (ptr : Nat)
  | store (place : Nat) (value : UInt8)
  deriving DecidableEq, Repr

/-- Memory, and the blocks `malloc` returned that are not yet freed, with the sizes asked for. -/
structure Usage where
  mem : Storage
  live : List (Nat × Nat)

/-- One use of the heap whose list starts at `first`. -/
inductive Step (first : Nat) : Usage → Use → Usage → Prop
  | malloc {s : Usage} {size ptr : Nat} {mem : Storage} :
      Memory.malloc s.mem first size = some (mem, ptr) →
      Step first s (.malloc size) ⟨mem, if ptr = 0 then s.live else (ptr, size) :: s.live⟩
  | free {s : Usage} {ptr size : Nat} : (ptr, size) ∈ s.live →
      Step first s (.free ptr) ⟨Memory.free s.mem ptr, s.live.filter fun block => block.1 ≠ ptr⟩
  | store {s : Usage} {ptr size place : Nat} (value : UInt8) : (ptr, size) ∈ s.live →
      ptr ≤ place → place < ptr + size →
      Step first s (.store place value) ⟨Function.update s.mem place value, s.live⟩

/-- The chunk list from `first` tiles the region up to `stop`. -/
structure Tiles (mem : Storage) (first stop : Nat) (chunks : List Nat) : Prop where
  head : chunks.head? = some first
  front : prevOf mem first = 0
  links : chunks.IsChain fun chunk next => nextOf mem chunk = next ∧
    next = chunk + chunkSize + sizeOf mem chunk ∧ prevOf mem next = chunk
  last : ∃ chunk, chunks.getLast? = some chunk ∧ nextOf mem chunk = 0 ∧
    chunk + chunkSize + sizeOf mem chunk = stop

/-- The bytes of the chunk behind a pointer. -/
def area (mem : Storage) (ptr : Nat) : Set Nat :=
  Set.Ico ptr (ptr + sizeOf mem (ptr - chunkSize))

/-- **Safety** of a heap in use. -/
structure Safe (first stop : Nat) (s : Usage) (chunks : List Nat) : Prop where
  tiles : Tiles s.mem first stop chunks
  enough : ∀ block ∈ s.live, block.2 ≤ sizeOf s.mem (block.1 - chunkSize)
  inside : ∀ block ∈ s.live,
    first ≤ block.1 ∧ block.1 + sizeOf s.mem (block.1 - chunkSize) ≤ stop
  disjoint : s.live.Pairwise fun block other => Disjoint (area s.mem block.1) (area s.mem other.1)
  headers : ∀ block ∈ s.live, ∀ chunk ∈ chunks,
    Disjoint (area s.mem block.1) (Set.Ico chunk (chunk + chunkSize))
  returns : ∀ size, ∃ mem ptr, malloc s.mem first size = some (mem, ptr) ∧
    (∀ block ∈ s.live, ∀ place ∈ area s.mem block.1, mem place = s.mem place) ∧
    (ptr ≠ 0 → ∀ place ∈ area mem ptr, mem place = s.mem place)
  frees : ∀ freed ∈ s.live, ∀ block ∈ s.live, ∀ place ∈ area s.mem block.1,
    free s.mem freed.1 place = s.mem place

variable {s t : Usage} {start stop : Nat} {blocks : List Block}

/-! ### The invariant -/

/-- The chunk of a live block. -/
def Owns (start : Nat) (blocks : List Block) (block : Nat × Nat) : Prop :=
  ∃ entry ∈ areas chunkSize start blocks,
    block.1 = entry.1 + chunkSize ∧ entry.2.used = true ∧ block.2 ≤ entry.2.size

structure Owned (start stop : Nat) (blocks : List Block) (s : Usage) : Prop where
  heap : Heap s.mem start stop blocks
  owns : ∀ block ∈ s.live, Owns start blocks block
  distinct : s.live.Pairwise fun block other => block.1 ≠ other.1

section Entries

variable {mem : Storage} {entry : Nat × Block} (heap : Heap mem start stop blocks)
  (member : entry ∈ areas chunkSize start blocks)
include heap member

theorem Heap.sizeOf_eq : sizeOf mem entry.1 = entry.2.size := by
  obtain ⟨pre, post, rfl, place⟩ := areas_split member
  exact congrArg Header.size (heap.header place)

theorem Heap.area : area mem (entry.1 + chunkSize) =
    Set.Ico (entry.1 + chunkSize) (entry.1 + chunkSize + entry.2.size) := by
  rw [Memory.area, Nat.add_sub_cancel, heap.sizeOf_eq member]

end Entries

/-! ### Steps -/

/-- What a use of the heap does to the blocks and to the list of live ones. -/
inductive Moves (start : Nat) (blocks : List Block) (live : List (Nat × Nat)) :
    List Block → List (Nat × Nat) → Prop
  | stays : Moves start blocks live blocks live
  | takes {pre post : List Block} {b : Block} {size : Nat} : blocks = pre ++ b :: post → Fits size b →
      Moves start blocks live (pre ++ carve chunkSize size b ++ post)
        ((start + span chunkSize pre + chunkSize, size) :: live)
  | gives {pre post : List Block} {b : Block} : blocks = pre ++ b :: post → b.used = true →
      Moves start blocks live (settle chunkSize pre ⟨b.size, false⟩ post)
        (live.filter fun block => block.1 ≠ start + span chunkSize pre + chunkSize)

theorem Owned.malloc {size ptr : Nat} {mem : Storage} (owned : Owned start stop blocks s)
    (returned : malloc s.mem start size = some (mem, ptr)) :
    ∃ blocks', Heap mem start stop blocks' ∧
      Moves start blocks s.live blocks' (if ptr = 0 then s.live else (ptr, size) :: s.live) := by
  rcases malloc_spec owned.heap size with ⟨-, none⟩ | ⟨pre, b, post, mem', rfl, -, fits, taken, heap, -⟩
  · rw [none] at returned
    cases returned
    exact ⟨blocks, owned.heap, .stays⟩
  · rw [taken] at returned
    cases returned
    rw [if_neg (by have := owned.heap.positive; omega)]
    exact ⟨_, heap, .takes rfl fits⟩

theorem Owned.free {ptr size : Nat} (owned : Owned start stop blocks s) (live : (ptr, size) ∈ s.live) :
    ∃ blocks', Heap (Memory.free s.mem ptr) start stop blocks' ∧
      Moves start blocks s.live blocks' (s.live.filter fun block => block.1 ≠ ptr) := by
  obtain ⟨⟨chunk, b⟩, member, there, used, -⟩ := owned.owns _ live
  obtain ⟨pre, post, rfl, here⟩ := areas_split member
  replace there : ptr = start + span chunkSize pre + chunkSize := by rw [← here, ← there]
  subst there
  exact ⟨_, (free_spec owned.heap).1, .gives rfl used⟩

theorem Owned.store {ptr size place : Nat} (value : UInt8) (owned : Owned start stop blocks s)
    (live : (ptr, size) ∈ s.live) (low : ptr ≤ place) (high : place < ptr + size) :
    Heap (Function.update s.mem place value) start stop blocks := by
  obtain ⟨entry, member, here, used, enough⟩ := owned.owns _ live
  have same : ∀ chunk ∈ heads chunkSize start blocks,
      headerAt (Function.update s.mem place value) chunk = headerAt s.mem chunk := by
    intro chunk head
    have apart : place < chunk ∨ chunk + chunkSize ≤ place := areas_heads member head (by omega) (by omega)
    exact headerAt_congr fun other first last => Function.update_of_ne (by omega) _ _
  exact { owned.heap with chain := owned.heap.chain.congr same }

theorem Owned.moves {use : Use} (owned : Owned start stop blocks s) (step : Step start s use t) :
    ∃ blocks', Heap t.mem start stop blocks' ∧ Moves start blocks s.live blocks' t.live := by
  cases step with
  | malloc returned => exact owned.malloc returned
  | free live =>
    dsimp only
    exact owned.free live
  | store value live low high => exact ⟨blocks, owned.store value live low high, .stays⟩

theorem Moves.owns {blocks' : List Block} {live live' : List (Nat × Nat)}
    (moves : Moves start blocks live blocks' live') (owns : ∀ block ∈ live, Owns start blocks block) :
    ∀ block ∈ live', Owns start blocks' block := by
  cases moves with
  | stays => exact owns
  | @takes pre post b size shape fits =>
    subst shape
    rintro block (_ | ⟨_, member⟩)
    · obtain ⟨room, enough, -, inside⟩ := carve_mem start pre post fits.2
      exact ⟨_, inside, rfl, rfl, enough⟩
    · obtain ⟨entry, inside, place, used, enough⟩ := owns block member
      exact ⟨entry, carve_keeps size fits.1 used inside, place, used, enough⟩
  | @gives pre post b shape busy =>
    subst shape
    intro block kept
    obtain ⟨member, other⟩ := List.mem_filter.mp kept
    obtain ⟨entry, inside, place, used, enough⟩ := owns block member
    refine ⟨entry, (settle_used_iff rfl used).mpr ?_, place, used, enough⟩
    refine (areas_replace [b] [⟨b.size, false⟩] (by simp) (fun same => ?_) fun same => ?_).mpr inside
    · rw [List.mem_singleton.mp same] at place
      simp [place] at other
    · rw [List.mem_singleton.mp same] at used
      cases used

theorem Moves.distinct {blocks' : List Block} {live live' : List (Nat × Nat)}
    (moves : Moves start blocks live blocks' live') (owns : ∀ block ∈ live, Owns start blocks block)
    (distinct : live.Pairwise fun block other => block.1 ≠ other.1) :
    live'.Pairwise fun block other => block.1 ≠ other.1 := by
  cases moves with
  | stays => exact distinct
  | @takes pre post b size shape fits =>
    subst shape
    refine List.pairwise_cons.mpr ⟨fun block member same => ?_, distinct⟩
    -- a live block has a chunk in use, the one taken was free
    obtain ⟨entry, inside, place, used, -⟩ := owns block member
    have here := areas_mid (h := chunkSize) start pre post b
    rw [areas_unique (by decide) inside here (show entry.1 = _ by omega), fits.1] at used
    cases used
  | gives shape busy => exact distinct.filter _

theorem Owned.step {use : Use} (owned : ∃ blocks, Owned start stop blocks s)
    (step : Step start s use t) : ∃ blocks, Owned start stop blocks t := by
  obtain ⟨blocks, owned⟩ := owned
  obtain ⟨blocks', heap, moves⟩ := owned.moves step
  exact ⟨blocks', heap, moves.owns owned.owns, moves.distinct owned.owns owned.distinct⟩

theorem Owned.init {size : Nat} (positive : 0 < start) (room : chunkSize < size)
    (bound : start + size ≤ 2 ^ 32) (mem : Storage) :
    Owned start (start + size) [⟨size - chunkSize, false⟩] ⟨memoryManager mem start size, []⟩ :=
  ⟨memoryManager_heap positive room bound mem, nofun, .nil⟩

theorem Owned.run {size : Nat} {mem : Storage} {uses : List Use} (positive : 0 < start)
    (room : chunkSize < size) (bound : start + size ≤ 2 ^ 32)
    (run : Steps (Step start) ⟨memoryManager mem start size, []⟩ uses s) :
    ∃ blocks, Owned start (start + size) blocks s :=
  run.invariant (fun _ _ _ owned step => Owned.step owned step) ⟨_, Owned.init positive room bound mem⟩

/-! ### Safety -/

theorem Chained.heads_isChain {mem : Storage} {prev addr : Nat} {near : Block → Block → Prop}
    {R : Nat → Nat → Prop} (chain : Chained mem 0 prev addr blocks) (neighbours : blocks.IsChain near)
    (each : ∀ {chunk prev next after : Nat} {b c : Block}, near b c → next = chunk + chunkSize + b.size →
      headerAt mem chunk = ⟨prev, next, b.used, b.size⟩ →
      headerAt mem next = ⟨chunk, after, c.used, c.size⟩ → R chunk next) :
    (heads chunkSize addr blocks).IsChain R := by
  induction blocks generalizing prev addr with
  | nil => exact .nil
  | cons b rest ih =>
    cases rest with
    | nil => exact .singleton _
    | cons c rest =>
      obtain ⟨first, later⟩ := List.isChain_cons_cons.mp neighbours
      exact List.isChain_cons_cons.mpr ⟨each first rfl chain.1 chain.2.1, ih chain.2 later⟩

theorem Chained.links {mem : Storage} {prev addr : Nat} (chain : Chained mem 0 prev addr blocks) :
    (heads chunkSize addr blocks).IsChain fun chunk next => nextOf mem chunk = next ∧
      next = chunk + chunkSize + sizeOf mem chunk ∧ prevOf mem next = chunk := by
  have any : blocks.IsChain fun _ _ => True := (List.pairwise_of_forall fun _ _ => trivial).isChain
  refine chain.heads_isChain any fun {chunk _ next _ b _} _ behind own other => ?_
  have size : sizeOf mem chunk = b.size := congrArg Header.size own
  rw [size]
  exact ⟨congrArg Header.next own, behind, congrArg Header.prev other⟩

theorem Heap.tiles {mem : Storage} (heap : Heap mem start stop blocks) :
    Tiles mem start stop (heads chunkSize start blocks) := by
  refine ⟨?_, ?_, heap.chain.links, ?_⟩
  · obtain ⟨b, rest, rfl⟩ := List.exists_cons_of_ne_nil heap.nonempty
    rfl
  · obtain ⟨b, rest, rfl⟩ := List.exists_cons_of_ne_nil heap.nonempty
    exact congrArg Header.prev heap.chain.1
  · obtain ⟨pre, b, rfl⟩ := (List.eq_nil_or_concat' blocks).resolve_left heap.nonempty
    have header := heap.header rfl
    have size : sizeOf mem (start + span chunkSize pre) = b.size := congrArg Header.size header
    refine ⟨start + span chunkSize pre, by simp, congrArg Header.next header, ?_⟩
    rw [size, ← heap.total, span_append, span_cons, span_nil]
    ring

theorem Writes.area {mem mem' : Storage} {entry : Nat × Block} {place : Nat}
    (writes : Writes mem mem' (heads chunkSize start blocks))
    (member : entry ∈ areas chunkSize start blocks)
    (inside : place ∈ Set.Ico (entry.1 + chunkSize) (entry.1 + chunkSize + entry.2.size)) :
    mem' place = mem place :=
  writes place fun _ head => areas_heads member head inside.1 inside.2

theorem Owned.safe (owned : Owned start stop blocks s) : Safe start stop s (heads chunkSize start blocks) := by
  have heap := owned.heap
  refine ⟨heap.tiles, ?_, ?_, ?_, ?_, ?_, ?_⟩
  · intro block live
    obtain ⟨entry, member, place, -, enough⟩ := owned.owns block live
    rwa [place, Nat.add_sub_cancel, heap.sizeOf_eq member]
  · intro block live
    obtain ⟨entry, member, place, -, -⟩ := owned.owns block live
    rw [place, Nat.add_sub_cancel, heap.sizeOf_eq member, ← heap.total]
    have := areas_bounds member
    omega
  · refine owned.distinct.imp_of_mem fun {block other} live live' distinct => ?_
    obtain ⟨entry, member, place, -, -⟩ := owned.owns block live
    obtain ⟨entry', member', place', -, -⟩ := owned.owns other live'
    rw [place, place', heap.area member, heap.area member', Set.disjoint_left]
    rintro byte ⟨low, high⟩ ⟨low', high'⟩
    rcases areas_apart member member' with rfl | front | behind
    · exact distinct (place.trans place'.symm)
    · omega
    · omega
  · intro block live chunk head
    obtain ⟨entry, member, place, -, -⟩ := owned.owns block live
    rw [place, heap.area member, Set.disjoint_left]
    rintro byte ⟨low, high⟩ ⟨first, last⟩
    have := areas_heads member head low high
    omega
  · intro size
    rcases malloc_spec heap size with
      ⟨-, none⟩ | ⟨pre, b, post, mem, rfl, -, fits, taken, heap', writes⟩
    · exact ⟨s.mem, 0, none, fun _ _ _ _ => rfl, fun some => absurd rfl some⟩
    · refine ⟨mem, _, taken, fun block live byte inside => ?_, fun _ byte inside => ?_⟩
      · obtain ⟨entry, member, place, used, -⟩ := owned.owns block live
        rw [place, heap.area member] at inside
        exact writes.area (carve_keeps size fits.1 used member) inside
      · obtain ⟨room, -, -, member⟩ := carve_mem start pre post fits.2
        rw [heap'.area member] at inside
        exact writes.area member inside
  · intro freed live block live' byte inside
    obtain ⟨⟨chunk, b⟩, member, place, -, -⟩ := owned.owns freed live
    obtain ⟨entry, member', place', -, -⟩ := owned.owns block live'
    rw [place', heap.area member'] at inside
    obtain ⟨pre, post, rfl, rfl⟩ := areas_split member
    rw [place]
    exact (free_spec heap).2.area member' inside

/-- **Heap safety.** -/
theorem heap_safety {size : Nat} {mem : Storage} {uses : List Use} (positive : 0 < start)
    (room : chunkSize < size) (bound : start + size ≤ 2 ^ 32)
    (run : Steps (Step start) ⟨memoryManager mem start size, []⟩ uses s) :
    ∃ chunks, Safe start (start + size) s chunks := by
  obtain ⟨blocks, owned⟩ := Owned.run positive room bound run
  exact ⟨_, owned.safe⟩

theorem Step.of_ptr {first size ptr : Nat} (s : Usage)
    (returned : (Memory.malloc s.mem first size).map Prod.snd = some ptr) :
    Step first s (.malloc size) ⟨((Memory.malloc s.mem first size).getD (s.mem, 0)).1,
      if ptr = 0 then s.live else (ptr, size) :: s.live⟩ := by
  obtain ⟨⟨mem, _⟩, same, rfl⟩ := Option.map_eq_some_iff.mp returned
  rw [same]
  exact .malloc same

theorem heap_safety_two_blocks : ∃ s : Usage,
    Steps (Step 16) ⟨memoryManager (fun _ => 7) 16 80, []⟩ [.malloc 8, .malloc 4, .free 29] s ∧
      s.live = [(50, 4)] ∧ ∃ chunks, Safe 16 96 s chunks := by
  have run := Steps.cons (Step.of_ptr ⟨memoryManager (fun _ => 7) 16 80, []⟩
      (show (malloc _ 16 8).map Prod.snd = some 29 by decide +kernel))
    (.cons (Step.of_ptr _ (show (malloc _ 16 4).map Prod.snd = some 50 by decide +kernel))
    (.cons (Step.free (List.mem_cons_of_mem _ List.mem_cons_self)) (.nil _)))
  exact ⟨_, run, rfl, heap_safety (by decide) (by decide) (by decide) run⟩

end LaylaOS.Memory
