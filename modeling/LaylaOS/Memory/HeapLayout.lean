/-
**The chunk list of a heap.**

`Heap mem start stop blocks`: the headers in memory are those of a region `[start, stop)` cut into
`blocks`, each with `next` the chunk behind it and `prev` the one in front of it.

* `malloc_spec` — `malloc` takes the first block that fits and cuts it (`carve`), or none fits;
* `free_spec` — `free` gives a block back and joins it with its free neighbours (`settle`).

Both write to headers only: `malloc` to headers of the list it leaves, `free` to headers of the list
it finds.
-/

import LaylaOS.Lib.Blocks
import LaylaOS.Memory.Heap

namespace LaylaOS.Memory

open LaylaOS.Lib

/-- The address of the first of the blocks at `addr`, `after` if there is none. -/
def front (after addr : Nat) : List Block → Nat
  | [] => after
  | _ :: _ => addr

/-- The address of the last of the blocks at `addr`, `prev` if there is none. -/
def back : Nat → Nat → List Block → Nat
  | prev, _, [] => prev
  | _, addr, b :: rest => back addr (addr + chunkSize + b.size) rest

/-- The headers of the blocks at `addr`: `prev` is in front of the first, `after` behind the last. -/
def Chained (mem : Storage) (after : Nat) : Nat → Nat → List Block → Prop
  | _, _, [] => True
  | prev, addr, b :: rest =>
    headerAt mem addr = ⟨prev, front after (addr + chunkSize + b.size) rest, b.used, b.size⟩ ∧
      Chained mem after addr (addr + chunkSize + b.size) rest

/-- **The chunk list.** Every chunk has a byte behind its header, so no pointer to an area is null. -/
structure Heap (mem : Storage) (start stop : Nat) (blocks : List Block) : Prop where
  positive : 0 < start
  nonempty : blocks ≠ []
  total : start + span chunkSize blocks = stop
  bound : stop ≤ 2 ^ 32
  chain : Chained mem 0 0 start blocks
  room : ∀ chunk ∈ heads chunkSize start blocks, chunk + chunkSize < stop

variable {mem mem' : Storage} {start stop after prev addr : Nat} {blocks pre post : List Block}

/-! ### Cutting a list -/

theorem front_append (first second : List Block) : front after addr (first ++ second) =
      front (front after (addr + span chunkSize first) second) addr first := by
  cases first <;> rfl

theorem front_of_ne (some : blocks ≠ []) : front after addr blocks = addr := by
  cases blocks with
  | nil => exact absurd rfl some
  | cons b rest => rfl

theorem back_append (first second : List Block) : back prev addr (first ++ second) =
      back (back prev addr first) (addr + span chunkSize first) second := by
  induction first generalizing prev addr with
  | nil => rfl
  | cons b rest ih => simp only [List.cons_append, back, ih, span_cons, Nat.add_assoc]

theorem chained_append (first second : List Block) : Chained mem after prev addr (first ++ second) ↔
      Chained mem (front after (addr + span chunkSize first) second) prev addr first ∧
        Chained mem after (back prev addr first) (addr + span chunkSize first) second := by
  induction first generalizing prev addr with
  | nil => simp [Chained, back]
  | cons b rest ih =>
    simp only [List.cons_append, Chained, ih, front_append, span_cons, back, Nat.add_assoc, and_assoc]

/-! ### Stores -/

theorem Chained.congr (chain : Chained mem after prev addr blocks)
    (same : ∀ chunk ∈ heads chunkSize addr blocks, headerAt mem' chunk = headerAt mem chunk) :
    Chained mem' after prev addr blocks := by
  induction blocks generalizing prev addr with
  | nil => trivial
  | cons b rest ih =>
    rw [heads_cons, List.forall_mem_cons] at same
    exact ⟨same.1.trans chain.1, ih chain.2 same.2⟩

theorem Chained.frame {chunks : List Nat} (chain : Chained mem after prev addr blocks)
    (writes : Writes mem mem' chunks)
    (apart : ∀ chunk ∈ chunks, chunk + chunkSize ≤ addr ∨ addr + span chunkSize blocks ≤ chunk) :
    Chained mem' after prev addr blocks := by
  refine chain.congr fun head inside => writes.headerAt fun chunk member => ?_
  have := heads_bounds inside
  have := apart chunk member
  omega

theorem Chained.relink {chunks : List Nat} {prev' : Nat} (chain : Chained mem after prev addr blocks)
    (writes : Writes mem mem' chunks)
    (low : ∀ chunk ∈ chunks, chunk + chunkSize ≤ addr ∨ chunk = addr)
    (link : blocks ≠ [] → headerAt mem' addr = { headerAt mem addr with prev := prev' }) :
    Chained mem' after prev' addr blocks := by
  cases blocks with
  | nil => trivial
  | cons b rest =>
    refine ⟨?_, chain.2.frame writes fun chunk member => .inl ?_⟩
    · rw [link (List.cons_ne_nil _ _), chain.1]
    · have := low chunk member
      omega

theorem mem_heads_take {chunk : Nat} (member : chunk ∈ heads chunkSize addr (post.take 1)) :
    ∃ b rest, post = b :: rest ∧ chunk = addr := by
  cases post with
  | nil => exact absurd member List.not_mem_nil
  | cons b rest => exact ⟨b, rest, rfl, List.mem_singleton.mp member⟩

theorem linked_front : linked (front 0 addr post) ⊆ heads chunkSize addr (post.take 1) := by
  intro chunk member
  obtain ⟨some, rfl⟩ := mem_linked.mp member
  cases post with
  | nil => exact absurd rfl some
  | cons b rest => exact List.mem_singleton_self _

/-- **Part of the region is cut anew.** The headers written are those of the new part and the first
one behind it, whose `prev` changes. -/
theorem Heap.replace {chunk next : Nat} (mid mid' : List Block)
    (heap : Heap mem start stop (pre ++ (mid ++ post))) (place : chunk = start + span chunkSize pre)
    (behind : next = chunk + span chunkSize mid) (old : mid ≠ []) (new : mid' ≠ [])
    (same : span chunkSize mid' = span chunkSize mid)
    (inner : Chained mem' (front 0 next post) (back 0 start pre) chunk mid')
    (link : post ≠ [] → headerAt mem' next =
      { headerAt mem next with prev := back (back 0 start pre) chunk mid' })
    (writes : Writes mem mem' (heads chunkSize chunk (mid' ++ post.take 1)))
    (room : ∀ chunk' ∈ heads chunkSize chunk mid', chunk' + chunkSize < stop) :
    Heap mem' start stop (pre ++ (mid' ++ post)) ∧
      Writes mem mem' (heads chunkSize start (pre ++ (mid' ++ post))) := by
  rw [← List.append_assoc] at heap ⊢
  have total (part : List Block) (equal : span chunkSize part = span chunkSize mid) :
      start + span chunkSize (pre ++ part) = next := by
    rw [span_append, equal, behind, place, Nat.add_assoc]
  have position : ∀ other ∈ heads chunkSize chunk (mid' ++ post.take 1),
      chunk ≤ other ∧ (other + chunkSize ≤ next ∨ other = next) := by
    intro other member
    rw [heads_append, List.mem_append] at member
    rcases member with inside | later
    · have := heads_bounds inside
      omega
    · obtain ⟨b, rest, -, rfl⟩ := mem_heads_take later
      omega
  obtain ⟨early, late⟩ := (chained_append _ _).mp heap.chain
  have outer := ((chained_append _ _).mp early).1
  rw [front_of_ne old, ← place] at outer
  rw [total mid rfl] at late
  refine ⟨⟨heap.positive, by simp [new], ?_, heap.bound, ?_, ?_⟩, writes.mono fun other member => ?_⟩
  · rw [← heap.total, span_append, ← Nat.add_assoc, total mid' same, ← total mid rfl, Nat.add_assoc,
      ← span_append]
  · rw [chained_append, chained_append, total mid' same, back_append, front_of_ne new, ← place]
    refine ⟨⟨outer.frame writes fun other member => .inr ?_, inner⟩, ?_⟩
    · rw [← place]
      exact (position other member).1
    · exact late.relink writes (fun other member => (position other member).2) link
  · intro other member
    rw [heads_append, heads_append, total mid' same, ← place, List.mem_append, List.mem_append] at member
    have kept := heap.room other
    rw [heads_append, heads_append, total mid rfl, List.mem_append, List.mem_append] at kept
    rcases member with (inside | inside) | inside
    · exact kept (.inl (.inl inside))
    · exact room other inside
    · exact kept (.inr inside)
  · rw [heads_append, List.mem_append] at member
    rw [heads_append, heads_append, total mid' same, ← place]
    rcases member with inside | later
    · simp [inside]
    · obtain ⟨b, rest, rfl, rfl⟩ := mem_heads_take later
      simp [behind, same]

/-! ### The moves -/

section Moves

variable {chunk : Nat} {x y : Block} (place : chunk = start + span chunkSize pre)
include place

theorem Heap.header (heap : Heap mem start stop (pre ++ x :: post)) : headerAt mem chunk =
      ⟨back 0 start pre, front 0 (chunk + chunkSize + x.size) post, x.used, x.size⟩ := by
  subst place
  exact ((chained_append _ _).mp heap.chain).2.1

theorem Heap.second (heap : Heap mem start stop (pre ++ x :: y :: post)) :
    Heap mem start stop (pre ++ [x] ++ y :: post) ∧
      chunk + chunkSize + x.size = start + span chunkSize (pre ++ [x]) :=
  ⟨by simpa using heap, by simp [place, Nat.add_assoc]⟩

theorem Heap.behind (heap : Heap mem start stop (pre ++ x :: post)) (some : post ≠ []) :
    (headerAt mem (chunk + chunkSize + x.size)).prev = chunk := by
  obtain ⟨y, rest, rfl⟩ := List.exists_cons_of_ne_nil some
  obtain ⟨second, there⟩ := heap.second place
  rw [second.header there, back_append, ← place]
  rfl

theorem Heap.low (heap : Heap mem start stop (pre ++ x :: post)) : chunk + chunkSize < stop :=
  heap.room chunk (by simp [place])

theorem Heap.high (heap : Heap mem start stop (pre ++ x :: post)) : chunk + chunkSize + x.size ≤ stop := by
  have := heap.total
  rw [span_append, span_cons] at this
  omega

theorem Heap.mark (heap : Heap mem start stop (pre ++ x :: post)) (used : Bool) :
    Heap (setAllocated mem chunk used) start stop (pre ++ ⟨x.size, used⟩ :: post) ∧
      Writes mem (setAllocated mem chunk used) (heads chunkSize start (pre ++ ⟨x.size, used⟩ :: post)) := by
  have writes := setAllocated_writes mem chunk used
  have own := headerAt_setAllocated mem chunk used
  rw [heap.header place] at own
  have low := heap.low place
  have behind := heap.behind place
  refine heap.replace [x] [⟨x.size, used⟩] place
    (show chunk + chunkSize + x.size = _ by simp [Nat.add_assoc]) (by simp) (by simp) (by simp)
    ⟨own, trivial⟩ (fun some => ?_) (writes.mono (by simp)) (by simpa using low)
  rw [writes.headerAt fun c member => .inr (by rw [List.mem_singleton.mp member]; omega)]
  exact congrArg (fun prev => { headerAt mem (chunk + chunkSize + x.size) with prev := prev }) (behind some)

theorem Heap.cut {n : Nat} (heap : Heap mem start stop (pre ++ x :: post)) (fits : n + chunkSize < x.size) :
    Heap (splitChunk mem chunk n) start stop (pre ++ ⟨n, x.used⟩ :: ⟨x.size - n - chunkSize, false⟩ :: post) ∧
      Writes mem (splitChunk mem chunk n)
        (heads chunkSize start (pre ++ ⟨n, x.used⟩ :: ⟨x.size - n - chunkSize, false⟩ :: post)) := by
  have header := heap.header place
  have high := heap.high place
  have positive := heap.positive
  have size : sizeOf mem chunk = x.size := congrArg Header.size header
  have next : nextOf mem chunk = front 0 (chunk + chunkSize + x.size) post := congrArg Header.next header
  have split : Split mem (splitChunk mem chunk n) chunk n := by
    refine splitChunk_spec (by omega) (by have := heap.bound; omega) ?_
    rw [next, size]
    cases post with
    | nil => exact .inl rfl
    | cons y rest => exact .inr rfl
  obtain ⟨own, fresh, link, writes⟩ := split
  rw [header] at own fresh link writes
  refine heap.replace [x] [⟨n, x.used⟩, ⟨x.size - n - chunkSize, false⟩] place
    (show chunk + chunkSize + x.size = _ by simp [Nat.add_assoc]) (by simp) (by simp) ?_
    ⟨own, ?_, trivial⟩ (fun some => ?_) (writes.mono fun c member => ?_) ?_
  · simp only [span_cons, span_nil]
    omega
  · exact fresh
  · rw [front_of_ne some] at link
    exact link (show chunk + chunkSize + x.size ≠ 0 by omega)
  · rcases List.mem_cons.mp member with rfl | member
    · simp
    rcases List.mem_cons.mp member with rfl | member
    · simp
    have last := linked_front member
    rw [show chunk + chunkSize + x.size =
      chunk + chunkSize + n + chunkSize + (x.size - n - chunkSize) by omega] at last
    simp [last]
  · simp only [heads_cons, heads_nil, List.forall_mem_cons]
    exact ⟨heap.low place, by omega, by simp⟩

theorem Heap.joined (heap : Heap mem start stop (pre ++ x :: y :: post)) :
    Heap (join mem chunk (chunk + chunkSize + x.size)) start stop
        (pre ++ ⟨x.size + (chunkSize + y.size), x.used⟩ :: post) ∧
      Writes mem (join mem chunk (chunk + chunkSize + x.size))
        (heads chunkSize start (pre ++ ⟨x.size + (chunkSize + y.size), x.used⟩ :: post)) := by
  have header := heap.header place
  have low := heap.low place
  obtain ⟨second, there⟩ := heap.second place
  have after := second.header there
  have high := second.high there
  have positive := heap.positive
  generalize away : chunk + chunkSize + x.size = next at *
  have size : sizeOf mem chunk = x.size := congrArg Header.size header
  have size' : sizeOf mem next = y.size := congrArg Header.size after
  have next' : nextOf mem next = front 0 (next + chunkSize + y.size) post := congrArg Header.next after
  have bound := heap.bound
  obtain ⟨own, link, writes⟩ : Joined mem (join mem chunk next) chunk next := by
    refine join_spec (by omega) ?_ (by omega) (by omega)
    rw [next']
    cases post with
    | nil => exact .inl rfl
    | cons b rest => exact .inr (show next ≤ next + chunkSize + y.size by omega)
  rw [header, after] at own
  rw [after] at link writes
  refine heap.replace [x, y] [⟨x.size + (chunkSize + y.size), x.used⟩] place
    (show next + chunkSize + y.size = _ by simp; omega) (by simp) (by simp) ?_
    ⟨own, trivial⟩ (fun some => ?_) (writes.mono fun c member => ?_) (by simpa using low)
  · simp only [span_cons, span_nil]
    omega
  · rw [front_of_ne some] at link
    exact link (show next + chunkSize + y.size ≠ 0 by omega)
  · rcases List.mem_cons.mp member with rfl | member
    · simp
    have last := linked_front member
    rw [show next + chunkSize + y.size = chunk + chunkSize + (x.size + (chunkSize + y.size)) by omega] at last
    simp [last]

theorem Heap.absorb (heap : Heap mem start stop (pre ++ x :: post)) :
    let mem' := if nextOf mem chunk ≠ 0 ∧ allocatedOf mem (nextOf mem chunk) = false then
      joinNext mem chunk else mem
    Heap mem' start stop (pre ++ absorb chunkSize x post) ∧
      Writes mem mem' (heads chunkSize start (pre ++ x :: post)) := by
  have next : nextOf mem chunk = front 0 (chunk + chunkSize + x.size) post :=
    congrArg Header.next (heap.header place)
  cases post with
  | nil =>
    rw [next]
    exact ⟨heap, fun _ _ => rfl⟩
  | cons y post =>
    obtain ⟨second, there⟩ := heap.second place
    have after := second.header there
    have high := second.high there
    have positive := heap.positive
    have bound := heap.bound
    have size : sizeOf mem chunk = x.size := congrArg Header.size (heap.header place)
    have size' : sizeOf mem (chunk + chunkSize + x.size) = y.size := congrArg Header.size after
    have used : allocatedOf mem (chunk + chunkSize + x.size) = y.used := congrArg Header.allocated after
    have some : chunk + chunkSize + x.size ≠ 0 := by omega
    replace next : nextOf mem chunk = chunk + chunkSize + x.size := next
    rw [Lib.absorb, next, used]
    by_cases busy : y.used = true
    · rw [if_neg (by simp [busy]), if_pos busy]
      exact ⟨heap, fun _ _ => rfl⟩
    · rw [if_pos ⟨some, Bool.not_eq_true _ ▸ busy⟩, if_neg busy,
        joinNext_eq (by omega) (by rw [next]; omega), next]
      exact ⟨(heap.joined place).1, (heap.joined place).2.mono (heads_join x y x.used)⟩

theorem Heap.rejoin (heap : Heap mem start stop (pre ++ x :: post)) (unused : x.used = false) :
    let mem' := if prevOf mem chunk ≠ 0 ∧ allocatedOf mem (prevOf mem chunk) = false then
      joinPrev mem chunk else mem
    Heap mem' start stop (rejoin chunkSize pre (x :: post)) ∧
      Writes mem mem' (heads chunkSize start (pre ++ x :: post)) := by
  have prev : prevOf mem chunk = back 0 start pre := congrArg Header.prev (heap.header place)
  rcases List.eq_nil_or_concat' pre with rfl | ⟨front, y, rfl⟩
  · rw [prev]
    exact ⟨heap, fun _ _ => rfl⟩
  · have first : Heap mem start stop (front ++ y :: x :: post) := by simpa using heap
    rw [back_append] at prev
    replace prev : prevOf mem chunk = start + span chunkSize front := prev
    have used : allocatedOf mem (prevOf mem chunk) = y.used := congrArg Header.allocated (first.header prev)
    have here : prevOf mem chunk + chunkSize + y.size = chunk := by
      rw [(first.second prev).2, place]
    rw [rejoin_concat, used]
    by_cases busy : y.used = true
    · rw [if_neg (by simp [busy]), if_pos busy]
      exact ⟨heap, fun _ _ => rfl⟩
    · obtain ⟨joined, writes⟩ := first.joined prev
      rw [here] at joined writes
      rw [if_pos ⟨by have := heap.positive; omega, Bool.not_eq_true _ ▸ busy⟩, if_neg busy,
        joinPrev_eq (by omega), Lib.absorb, if_neg (by simp [unused]), List.append_assoc]
      exact ⟨joined, writes.mono (heads_join y x y.used)⟩

end Moves

/-! ### The operations -/

theorem free_spec {x : Block} (heap : Heap mem start stop (pre ++ x :: post)) :
    Heap (free mem (start + span chunkSize pre + chunkSize)) start stop
        (settle chunkSize pre ⟨x.size, false⟩ post) ∧
      Writes mem (free mem (start + span chunkSize pre + chunkSize))
        (heads chunkSize start (pre ++ x :: post)) := by
  have low := heap.low rfl
  have bound := heap.bound
  obtain ⟨marked, first⟩ := heap.mark rfl false
  obtain ⟨absorbed, second⟩ := marked.absorb rfl
  have same := heads_mark (h := chunkSize) start pre post x false
  have fewer : heads chunkSize start (pre ++ absorb chunkSize ⟨x.size, false⟩ post) ⊆
      heads chunkSize start (pre ++ x :: post) := same ▸ heads_absorb _ _
  obtain ⟨size, rest, shape⟩ := absorb_cons (h := chunkSize) ⟨x.size, false⟩ post
  rw [shape] at absorbed fewer
  obtain ⟨rejoined, third⟩ := absorbed.rejoin rfl rfl
  unfold free settle
  rw [sub32_eq (by omega) (by omega), Nat.add_sub_cancel, shape]
  rw [same] at first second
  exact ⟨rejoined, ((first.trans second).trans third).mono (by simpa using fewer)⟩

theorem memoryManager_heap {size : Nat} (positive : 0 < start) (room : chunkSize < size)
    (bound : start + size ≤ 2 ^ 32) (mem : Storage) :
    Heap (memoryManager mem start size) start (start + size) [⟨size - chunkSize, false⟩] where
  positive := positive
  nonempty := List.cons_ne_nil _ _
  total := by
    show start + (chunkSize + (size - chunkSize) + 0) = start + size
    omega
  bound := bound
  chain := ⟨memoryManager_spec mem start (by omega) (by omega), trivial⟩
  room := by simpa using room

/-- A block that a request of `n` bytes can take. -/
def Fits (n : Nat) (b : Block) : Prop := b.used = false ∧ n ≤ b.size

theorem findFit_spec {n fuel : Nat} (chain : Chained mem 0 prev addr blocks) (positive : 0 < addr)
    (enough : blocks.length < fuel) :
    (∀ b ∈ blocks, ¬ Fits n b) ∧ findFit mem n fuel (front 0 addr blocks) = some none ∨
      ∃ pre b post, blocks = pre ++ b :: post ∧ (∀ a ∈ pre, ¬ Fits n a) ∧ Fits n b ∧
        findFit mem n fuel (front 0 addr blocks) = some (some (addr + span chunkSize pre)) := by
  induction blocks generalizing prev addr fuel with
  | nil =>
    obtain ⟨fuel, rfl⟩ := Nat.exists_eq_succ_of_ne_zero (show fuel ≠ 0 by omega)
    exact .inl ⟨by simp, rfl⟩
  | cons b rest ih =>
    obtain ⟨fuel, rfl⟩ := Nat.exists_eq_succ_of_ne_zero (show fuel ≠ 0 by omega)
    have used : allocatedOf mem addr = b.used := congrArg Header.allocated chain.1
    have size : sizeOf mem addr = b.size := congrArg Header.size chain.1
    have next : nextOf mem addr = front 0 (addr + chunkSize + b.size) rest := congrArg Header.next chain.1
    rw [show front 0 addr (b :: rest) = addr from rfl, findFit, if_neg (by omega), used, size, next]
    by_cases fits : Fits n b
    · refine .inr ⟨[], b, rest, rfl, by simp, fits, ?_⟩
      rw [if_neg (by simp [fits.1, fits.2])]
      rfl
    · have skip : (b.used || b.size < n) = true := by
        by_contra take
        simp only [Bool.or_eq_true, decide_eq_true_eq, not_or, Bool.not_eq_true, not_lt] at take
        exact fits take
      rw [if_pos skip]
      rcases ih chain.2 (by omega) (by simpa using enough) with
        ⟨none, scan⟩ | ⟨pre, a, post, rfl, none, found, scan⟩
      · exact .inl ⟨by simpa [fits] using none, scan⟩
      · refine .inr ⟨b :: pre, a, post, rfl, by simpa [fits] using none, found, ?_⟩
        rw [scan, span_cons]
        simp only [Nat.add_assoc]

/-- **`malloc` takes the first block that fits.** It always returns. -/
theorem malloc_spec (heap : Heap mem start stop blocks) (n : Nat) :
    (∀ b ∈ blocks, ¬ Fits n b) ∧ malloc mem start n = some (mem, 0) ∨
      ∃ pre b post mem', blocks = pre ++ b :: post ∧ (∀ a ∈ pre, ¬ Fits n a) ∧ Fits n b ∧
        malloc mem start n = some (mem', start + span chunkSize pre + chunkSize) ∧
        Heap mem' start stop (pre ++ carve chunkSize n b ++ post) ∧
        Writes mem mem' (heads chunkSize start (pre ++ carve chunkSize n b ++ post)) := by
  have short : blocks.length < 2 ^ 32 := by
    have := length_le_span (show 0 < chunkSize by decide) blocks
    have := heap.total
    have := heap.bound
    have := heap.positive
    omega
  unfold malloc
  rcases findFit_spec (n := n) heap.chain heap.positive short with
    ⟨none, scan⟩ | ⟨pre, b, post, rfl, first, fits, scan⟩
  · rw [front_of_ne heap.nonempty] at scan
    refine .inl ⟨none, ?_⟩
    rw [scan]
    rfl
  · rw [front_of_ne heap.nonempty] at scan
    have low := heap.low rfl
    have high := heap.high rfl
    have bound := heap.bound
    have size : sizeOf mem (start + span chunkSize pre) = b.size := congrArg Header.size (heap.header rfl)
    have word : (n + chunkSize) % 2 ^ 32 = n + chunkSize :=
      Nat.mod_eq_of_lt (by have := fits.2; have := heap.positive; omega)
    have pointer : (start + span chunkSize pre + chunkSize) % 2 ^ 32 =
      start + span chunkSize pre + chunkSize := Nat.mod_eq_of_lt (by omega)
    refine .inr ⟨pre, b, post, setAllocated (if n + chunkSize < b.size then
      splitChunk mem (start + span chunkSize pre) n else mem) (start + span chunkSize pre) true,
      rfl, first, fits, ?_, ?_⟩
    · rw [scan]
      simp only [Option.bind_eq_bind, Option.bind_some, size, word, pointer]
      rfl
    · unfold carve
      rw [List.append_assoc]
      by_cases cut : n + chunkSize < b.size
      · rw [if_pos cut, if_pos cut]
        obtain ⟨halved, writes⟩ := heap.cut rfl cut
        obtain ⟨marked, writes'⟩ := halved.mark rfl true
        rw [← heads_mark start pre _ _ true] at writes
        exact ⟨marked, (writes.trans writes').mono (List.append_subset.mpr
          ⟨List.Subset.refl _, List.Subset.refl _⟩)⟩
      · rw [if_neg cut, if_neg cut]
        exact heap.mark rfl true

end LaylaOS.Memory
