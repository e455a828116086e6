/-
**`malloc` is first fit.**

The live chunks, each with its header, leave runs of bytes of the region between them. `free` joins
neighbours, so each of these runs is one free chunk of the list, and the scan of `malloc` passes them by
in the order of their addresses.

* `malloc_first_fit` — `malloc` fails if there is none, and takes the front of the first one if there is.
-/

import LaylaOS.Lib.Gaps
import LaylaOS.Memory.HeapCoalescing

namespace LaylaOS.Memory

open LaylaOS.Lib

variable {s : Usage} {start stop n : Nat} {blocks : List Block}

/-- The bytes of the chunk behind a pointer, with its header. -/
def chunkBytes (mem : Storage) (ptr : Nat) : Set Nat :=
  Set.Ico (ptr - chunkSize) (ptr + sizeOf mem (ptr - chunkSize))

/-- The bytes of the region outside all live chunks. -/
def spare (start stop : Nat) (s : Usage) : Set Nat :=
  {place ∈ Set.Ico start stop | ∀ block ∈ s.live, place ∉ chunkBytes s.mem block.1}

/-- A longest run of bytes outside all live chunks that can take `n` bytes and a header. -/
def Room (start stop : Nat) (s : Usage) (n first last : Nat) : Prop :=
  MaximalRun (spare start stop s) first last ∧ n + chunkSize ≤ last - first

theorem Heap.chunkBytes_eq {mem : Storage} {entry : Nat × Block} (heap : Heap mem start stop blocks)
    (member : entry ∈ areas chunkSize start blocks) :
    chunkBytes mem (entry.1 + chunkSize) = extent chunkSize entry := by
  rw [chunkBytes, Nat.add_sub_cancel, heap.sizeOf_eq member, extent]

/-- **The bytes outside all live chunks** are those of the free chunks. -/
theorem Settled.spare_eq (settled : Settled start stop blocks s) :
    spare start stop s = gaps chunkSize start blocks := by
  have heap := settled.heap
  ext place
  rw [mem_gaps_iff, heap.total]
  refine and_congr_right fun _ => ⟨fun outside entry member used => ?_, fun outside block live => ?_⟩
  · obtain ⟨size, live⟩ := settled.tracked entry member used
    rw [← heap.chunkBytes_eq member]
    exact outside _ live
  · obtain ⟨entry, member, there, used, -⟩ := settled.owns block live
    rw [there, heap.chunkBytes_eq member]
    exact outside entry member used

theorem Settled.room_iff (settled : Settled start stop blocks s) {first last : Nat} :
    Room start stop s n first last ↔ ∃ entry ∈ areas chunkSize start blocks,
      Fits n entry.2 ∧ first = entry.1 ∧ last = entry.1 + chunkSize + entry.2.size := by
  unfold Room
  rw [settled.spare_eq, maximalRun_gaps_iff (by decide) settled.coalesced]
  constructor
  · rintro ⟨⟨entry, member, unused, rfl, rfl⟩, long⟩
    exact ⟨entry, member, ⟨unused, by omega⟩, rfl, rfl⟩
  · rintro ⟨entry, member, ⟨unused, fits⟩, rfl, rfl⟩
    exact ⟨⟨entry, member, unused, rfl, rfl⟩, by omega⟩

theorem Settled.no_room (settled : Settled start stop blocks s) (none : ∀ b ∈ blocks, ¬ Fits n b)
    (first last : Nat) : ¬ Room start stop s n first last := by
  intro room
  obtain ⟨entry, member, fits, -⟩ := settled.room_iff.mp room
  obtain ⟨before, after, shape, -⟩ := areas_split member
  exact none entry.2 (shape ▸ List.mem_append_right _ List.mem_cons_self) fits

theorem lowest_fit {pre post : List Block} {b : Block} (unfit : ∀ a ∈ pre, ¬ Fits n a)
    {entry : Nat × Block} (member : entry ∈ areas chunkSize start (pre ++ b :: post))
    (fits : Fits n entry.2) : start + span chunkSize pre ≤ entry.1 := by
  rw [areas_append] at member
  rcases List.mem_append.mp member with front | rest
  · obtain ⟨before, after, shape, -⟩ := areas_split front
    exact absurd fits (unfit _ (shape ▸ List.mem_append_right _ List.mem_cons_self))
  · exact (areas_bounds rest).1

/-- **`malloc` fails only if it must**, and takes the lowest run that is long enough. The chunk it makes
starts that run and is not more than a header larger than asked for. -/
theorem malloc_first_fit {size : Nat} {mem : Storage} {uses : List Use} (positive : 0 < start)
    (room : chunkSize < size) (bound : start + size ≤ 2 ^ 32)
    (run : Steps (Step start) ⟨memoryManager mem start size, []⟩ uses s) (n : Nat) :
    ∃ mem' ptr, malloc s.mem start n = some (mem', ptr) ∧
      (ptr = 0 ↔ ¬ ∃ first last, Room start (start + size) s n first last) ∧
      (ptr ≠ 0 → ∃ first last, Room start (start + size) s n first last ∧
        (∀ first' last', Room start (start + size) s n first' last' → first ≤ first') ∧
        ptr = first + chunkSize ∧ chunkBytes mem' ptr ⊆ Set.Ico first last ∧
        chunkSize + sizeOf mem' first ≤ n + 2 * chunkSize) := by
  obtain ⟨blocks, settled⟩ := Settled.run positive room bound run
  rcases malloc_spec settled.heap n with
    ⟨none, fails⟩ | ⟨pre, b, post, mem', rfl, unfit, fits, taken, heap, -⟩
  · refine ⟨s.mem, 0, fails, iff_of_true rfl ?_, fun some => absurd rfl some⟩
    rintro ⟨first, last, found⟩
    exact settled.no_room none first last found
  · have here : Room start (start + size) s n (start + span chunkSize pre)
        (start + span chunkSize pre + chunkSize + b.size) :=
      settled.room_iff.mpr ⟨_, areas_mid start pre post b, fits, rfl, rfl⟩
    obtain ⟨taken', -, small, member⟩ := carve_mem (h := chunkSize) start pre post fits.2
    have size' : sizeOf mem' (start + span chunkSize pre) = taken' := heap.sizeOf_eq member
    refine ⟨mem', _, taken, iff_of_false (by omega) (not_not.mpr ⟨_, _, here⟩), fun _ => ⟨_, _, here,
      fun first last found => ?_, rfl, ?_, ?_⟩⟩
    · obtain ⟨entry, inside, fits', rfl, -⟩ := settled.room_iff.mp found
      exact lowest_fit unfit inside fits'
    · rw [heap.chunkBytes_eq member]
      exact Set.Ico_subset_Ico_right (Nat.add_le_add_left (small.trans (min_le_left _ _)) _)
    · rw [size']
      have := small.trans (min_le_right _ _)
      omega

theorem malloc_first_fit_between : ∃ s : Usage,
    Steps (Step 16) ⟨memoryManager (fun _ => 7) 16 80, []⟩ [.malloc 8, .malloc 4, .free 29] s ∧
      ∃ mem' last, malloc s.mem 16 3 = some (mem', 29) ∧ Room 16 96 s 3 16 last ∧
        chunkSize + sizeOf mem' 16 ≤ 29 := by
  have run := Steps.cons (Step.of_ptr ⟨memoryManager (fun _ => 7) 16 80, []⟩
      (show (malloc _ 16 8).map Prod.snd = some 29 by decide +kernel))
    (.cons (Step.of_ptr _ (show (malloc _ 16 4).map Prod.snd = some 50 by decide +kernel))
    (.cons (Step.free (List.mem_cons_of_mem _ List.mem_cons_self)) (.nil _)))
  obtain ⟨mem', ptr, result, -, takes⟩ := malloc_first_fit (by decide) (by decide) (by decide) run 3
  have known : some ptr = some 29 := (congrArg (Option.map Prod.snd) result).symm.trans (by decide +kernel)
  obtain rfl : ptr = 29 := Option.some_injective _ known
  obtain ⟨first, last, found, -, place, -, small⟩ := takes (by decide)
  obtain rfl : first = 16 := Nat.add_right_cancel (m := chunkSize) place.symm
  exact ⟨_, run, mem', last, result, found, small⟩

end LaylaOS.Memory
