/-
**Coalescing is complete.**

`free` joins a block with a free neighbour on either side, so free chunks never stand side by side.
`coalescing_complete`: however a program uses the heap, of two neighbours in the chunk list one is
allocated; and once every block is freed the list is the one chunk that the constructor made.
-/

import Mathlib
import LaylaOS.Memory.HeapSafety

namespace LaylaOS.Memory

open LaylaOS.Lib

variable {s t : Usage} {start stop : Nat} {blocks blocks' : List Block} {live live' : List (Nat × Nat)}

/-- The chunks in use are those of the live blocks, and no two neighbours are free. -/
structure Settled (start stop : Nat) (blocks : List Block) (s : Usage) : Prop
    extends Owned start stop blocks s where
  tracked : ∀ entry ∈ areas chunkSize start blocks, entry.2.used = true →
    ∃ size, (entry.1 + chunkSize, size) ∈ s.live
  coalesced : Coalesced blocks

theorem Moves.tracked (moves : Moves start blocks live blocks' live')
    (tracked : ∀ entry ∈ areas chunkSize start blocks, entry.2.used = true →
      ∃ size, (entry.1 + chunkSize, size) ∈ live) :
    ∀ entry ∈ areas chunkSize start blocks', entry.2.used = true →
      ∃ size, (entry.1 + chunkSize, size) ∈ live' := by
  intro entry member used
  cases moves with
  | stays => exact tracked entry member used
  | @takes pre post b size shape fits =>
    subst shape
    by_cases carved : entry ∈ areas chunkSize (start + span chunkSize pre) (carve chunkSize size b)
    · exact ⟨size, by rw [carve_fst used carved]; exact List.mem_cons_self⟩
    · obtain ⟨size', there⟩ := tracked entry ((carve_used_iff size fits.1 used carved).mp member) used
      exact ⟨size', List.mem_cons_of_mem _ there⟩
  | @gives pre post b shape busy =>
    subst shape
    have inside := (settle_used_iff rfl used).mp member
    -- the chunk given back is not in use any more
    have other : entry.1 ≠ start + span chunkSize pre := by
      intro same
      rw [areas_unique (by decide) inside (areas_mid start pre post _) same] at used
      cases used
    have old := (areas_replace [b] [⟨b.size, false⟩] (by simp)
      (fun same => other (by rw [List.mem_singleton.mp same]))
      fun same => other (by rw [List.mem_singleton.mp same])).mp inside
    obtain ⟨size, there⟩ := tracked entry old used
    exact ⟨size, List.mem_filter.mpr ⟨there, by simpa using other⟩⟩

theorem Moves.coalesced (moves : Moves start blocks live blocks' live') (before : Coalesced blocks) :
    Coalesced blocks' := by
  cases moves with
  | stays => exact before
  | takes shape fits =>
    subst shape
    exact carve_coalesced _ fits.1 before
  | gives shape busy =>
    subst shape
    obtain ⟨first, second, -⟩ := List.isChain_append.mp before
    exact settle_coalesced _ first (List.isChain_cons.mp second).2

theorem Settled.step {use : Use} (settled : ∃ blocks, Settled start stop blocks s)
    (step : Step start s use t) : ∃ blocks, Settled start stop blocks t := by
  obtain ⟨blocks, settled⟩ := settled
  obtain ⟨blocks', heap, moves⟩ := settled.toOwned.moves step
  exact ⟨blocks', ⟨heap, moves.owns settled.owns, moves.distinct settled.owns settled.distinct⟩,
    moves.tracked settled.tracked, moves.coalesced settled.coalesced⟩

theorem Settled.run {size : Nat} {mem : Storage} {uses : List Use} (positive : 0 < start)
    (room : chunkSize < size) (bound : start + size ≤ 2 ^ 32)
    (run : Steps (Step start) ⟨memoryManager mem start size, []⟩ uses s) :
    ∃ blocks, Settled start (start + size) blocks s := by
  have init : ∃ blocks, Settled start (start + size) blocks ⟨memoryManager mem start size, []⟩ :=
    ⟨_, Owned.init positive room bound mem, by simp [areas], .singleton _⟩
  exact run.invariant (fun _ _ _ settled step => Settled.step settled step) init

theorem Settled.idle (settled : Settled start stop blocks s) (none : s.live = []) :
    blocks = [⟨stop - start - chunkSize, false⟩] := by
  have unused : ∀ entry ∈ areas chunkSize start blocks, entry.2.used = false := by
    intro entry member
    by_contra used
    obtain ⟨size, there⟩ := settled.tracked entry member (Bool.not_eq_false _ ▸ used)
    rw [none] at there
    cases there
  have idle : ∀ b ∈ blocks, b.used = false := by
    intro b member
    obtain ⟨pre, post, rfl⟩ := List.append_of_mem member
    exact unused _ (areas_mid start pre post b)
  obtain ⟨b, rfl⟩ := settled.coalesced.single settled.heap.nonempty idle
  have total := settled.heap.total
  rw [span_cons, span_nil] at total
  have size : b.size = stop - start - chunkSize := by omega
  rw [← size, ← idle b List.mem_cons_self]

theorem Chained.coalesced {mem : Storage} {prev addr : Nat} (chain : Chained mem 0 prev addr blocks)
    (coalesced : Coalesced blocks) : (heads chunkSize addr blocks).IsChain fun chunk next =>
      allocatedOf mem chunk = true ∨ allocatedOf mem next = true := by
  refine chain.heads_isChain coalesced fun {chunk _ next _ b c} near _ own other => ?_
  have first : allocatedOf mem chunk = b.used := congrArg Header.allocated own
  have second : allocatedOf mem next = c.used := congrArg Header.allocated other
  rwa [first, second]

/-- **Coalescing is complete.** -/
theorem coalescing_complete {size : Nat} {mem : Storage} {uses : List Use} (positive : 0 < start)
    (room : chunkSize < size) (bound : start + size ≤ 2 ^ 32)
    (run : Steps (Step start) ⟨memoryManager mem start size, []⟩ uses s) :
    ∃ chunks, Tiles s.mem start (start + size) chunks ∧ (chunks.IsChain fun chunk next =>
        allocatedOf s.mem chunk = true ∨ allocatedOf s.mem next = true) ∧
      (s.live = [] → chunks = [start] ∧ headerAt s.mem start = ⟨0, 0, false, size - chunkSize⟩) := by
  obtain ⟨blocks, settled⟩ := Settled.run positive room bound run
  refine ⟨_, settled.heap.tiles, settled.heap.chain.coalesced settled.coalesced, fun none => ?_⟩
  have single := settled.idle none
  rw [Nat.add_sub_cancel_left] at single
  subst single
  exact ⟨rfl, settled.heap.chain.1⟩

theorem coalescing_complete_two_blocks : ∃ s : Usage, Steps (Step 16) ⟨memoryManager (fun _ => 7) 16 80, []⟩
        [.malloc 8, .malloc 4, .free 29, .free 50] s ∧
      headerAt s.mem 16 = ⟨0, 0, false, 67⟩ := by
  have run := Steps.cons (Step.of_ptr ⟨memoryManager (fun _ => 7) 16 80, []⟩
      (show (malloc _ 16 8).map Prod.snd = some 29 by decide +kernel))
    (.cons (Step.of_ptr _ (show (malloc _ 16 4).map Prod.snd = some 50 by decide +kernel))
    (.cons (Step.free (List.mem_cons_of_mem _ List.mem_cons_self))
    (.cons (Step.free List.mem_cons_self) (.nil _))))
  obtain ⟨chunks, -, -, empty⟩ := coalescing_complete (by decide) (by decide) (by decide) run
  exact ⟨_, run, (empty rfl).2⟩

end LaylaOS.Memory
