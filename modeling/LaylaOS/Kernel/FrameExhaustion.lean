/-
**Running out of frames.**

`AllocFrame` returns 0 if no frame is free. `GetOrCreatePageTable` tests for that; the constructor of
`PageDirectory` does not: it clears frame 0 and takes it as its directory.

* `frame_exhaustion_iff` — that holds throughout exactly if every constructor gets a frame.
-/

import LaylaOS.Kernel.Boot
import LaylaOS.Kernel.ProcessMemory
import LaylaOS.Memory.FrameLife

namespace LaylaOS.Kernel

open LaylaOS.Lib LaylaOS.Memory

/-- A call that uses page directories; user directories are numbered behind the kernel's. -/
inductive PagingCall
  | exec (pid : Nat)
  | mapPage (d : Nat) (va pa flags : BitVec 32)
  | deleteUser (n : Nat)

/-- One call. Of `sys_exec` this is the constructor of the process. -/
def call (s : Paging) : PagingCall → Paging
  | .exec pid => processDirectory s pid
  | .mapPage d va pa flags => s.mapPage d va pa flags
  | .deleteUser n => s.destroy (n + 1)

/-- What exhaustion must not break; `mem` is the memory at the start. -/
structure Intact (mem : Nat → FrameWords) (s : Paging) : Prop where
  own : ∀ dir ∈ s.dirs, dir.physDir ≠ 0
  distinct : (s.dirs.map PageDirectory.physDir).Nodup
  untouched : s.mem 0 = mem 0
  settled : s.dirs.length ≤ 1 →
    s.pmm.freeFrames = s.pmm.clearFrames.card ∧ s.pmm.testBit 0 = true

/-- The constructor of the directory gets a frame. -/
def FindsFrame (s : Paging) : PagingCall → Prop
  | .exec _ => s.pmm.allocFrame.1 ≠ 0
  | _ => True

/-! ### Frame 0 -/

variable {mem : Nat → FrameWords} {pmm : Pmm} {s : Paging}

theorem mapPage_mem_zero (held : s.Held) (d : Nat) (va pa flags : BitVec 32) :
    (s.mapPage d va pa flags).mem 0 = s.mem 0 := by
  cases here : s.dirs[d]? with
  | none =>
    unfold Paging.mapPage
    rw [here]
  | some dir =>
    have own := (held.dirs dir (List.mem_of_getElem? here)).1
    have table : (s.getOrCreatePageTable d dir (pdIndex va) flags).2.mem 0 = s.mem 0 := by
      unfold Paging.getOrCreatePageTable
      split_ifs with present user full
      · exact Paging.store_mem_other _ _ _ own.symm
      · rfl
      · rfl
      · funext i
        exact (Paging.addTable_mem_apply (Ne.symm full) i).trans (if_neg fun both => own both.1.symm)
    unfold Paging.mapPage
    rw [here]
    dsimp only
    split_ifs with null
    · exact table
    · exact (Paging.store_mem_other _ _ _ (Ne.symm null)).trans table

/-! ### The invariant -/

/-- The account is right and frame 0 is as it was. -/
structure Handled (mem : Nat → FrameWords) (pmm : Pmm) (s : Paging) : Prop where
  account : ∃ made, Paging.Accounted pmm s made
  untouched : s.mem 0 = mem 0

theorem Handled.mapPage (handled : Handled mem pmm s) (d : Nat) (va pa flags : BitVec 32) :
    Handled mem pmm (s.mapPage d va pa flags) := by
  obtain ⟨⟨made, account⟩, untouched⟩ := handled
  exact ⟨⟨_, account.mapPage d va pa flags⟩, (mapPage_mem_zero account.held d va pa flags).trans untouched⟩

theorem Handled.kernel (handled : Handled mem pmm s) : ∃ kernel, s.dirs[0]? = some kernel := by
  obtain ⟨⟨made, account⟩, -⟩ := handled
  obtain ⟨kernel, rest, first⟩ := List.exists_cons_of_ne_nil account.kernel
  exact ⟨kernel, by rw [first]; rfl⟩

theorem Handled.createUser (handled : Handled mem pmm s) (found : s.pmm.allocFrame.1 ≠ 0) :
    Handled mem pmm s.createUser := by
  obtain ⟨kernel, zero⟩ := handled.kernel
  obtain ⟨⟨made, account⟩, untouched⟩ := handled
  refine ⟨⟨_, account.createUser found⟩, ?_⟩
  rw [Paging.createUser_mem zero (account.held.fresh found _
    (account.held.dirs kernel (List.mem_of_getElem? zero))), Function.update_of_ne found.symm]
  exact untouched

theorem Handled.call (handled : Handled mem pmm s) {c : PagingCall} (finds : FindsFrame s c) :
    Handled mem pmm (call s c) := by
  cases c with
  | exec pid =>
    obtain ⟨kernel, zero⟩ := handled.kernel
    show Handled mem pmm (processDirectory s pid)
    unfold processDirectory
    rw [zero]
    exact List.foldlRecOn (userPages pid) _ (handled.createUser finds) fun t next page _ =>
      next.mapPage _ _ _ _
  | mapPage d va pa flags => exact handled.mapPage d va pa flags
  | deleteUser n =>
    obtain ⟨⟨made, account⟩, untouched⟩ := handled
    refine ⟨⟨_, account.destroy (Nat.succ_ne_zero n)⟩, ?_⟩
    show (s.destroy (n + 1)).mem 0 = mem 0
    unfold Paging.destroy
    split <;> exact untouched

theorem Handled.intact (handled : Handled mem pmm s) (zero : pmm.testBit 0 = true) : Intact mem s := by
  obtain ⟨⟨made, account⟩, untouched⟩ := handled
  refine ⟨fun dir member => (account.held.dirs dir member).1, account.held.distinct, untouched,
    fun _ => ⟨account.held.balanced.counted, ?_⟩⟩
  rw [account.ledger.marks.bits, zero, ite_self]

/-! ### A constructor that gets no frame -/

theorem mapUsers_physDirs (s : Paging) (d : Nat) (pages : List (BitVec 32)) :
    (pages.foldl (Paging.mapUser d) s).dirs.map PageDirectory.physDir = s.dirs.map PageDirectory.physDir := by
  induction pages generalizing s with
  | nil => rfl
  | cons page pages ih =>
    rw [List.foldl_cons, ih]
    exact Paging.mapPage_physDirs s d page page pageUserRW

theorem processDirectory_physDirs (handled : Handled mem pmm s) (pid : Nat) :
    (processDirectory s pid).dirs.map PageDirectory.physDir =
      s.dirs.map PageDirectory.physDir ++ [s.pmm.allocFrame.1] := by
  obtain ⟨kernel, zero⟩ := handled.kernel
  unfold processDirectory
  rw [zero]
  dsimp only
  rw [mapUsers_physDirs, Paging.createUser_dirs zero, List.map_append, List.map_singleton]

theorem not_intact_of_mem (zero : 0 ∈ s.dirs.map PageDirectory.physDir) : ¬ Intact mem s := by
  intro intact
  obtain ⟨dir, member, null⟩ := List.mem_map.mp zero
  exact intact.own dir member null

/-- **One call** leaves all intact if and only if its constructor gets a frame. -/
theorem call_intact_iff (zero : pmm.testBit 0 = true) (handled : Handled mem pmm s) (c : PagingCall) :
    Intact mem (call s c) ↔ FindsFrame s c := by
  refine ⟨fun intact => ?_, fun finds => (handled.call finds).intact zero⟩
  cases c with
  | exec pid =>
    intro none
    refine not_intact_of_mem ?_ intact
    show 0 ∈ (processDirectory s pid).dirs.map PageDirectory.physDir
    rw [processDirectory_physDirs handled pid, none]
    exact List.mem_append_right _ List.mem_cons_self
  | mapPage => trivial
  | deleteUser => trivial

theorem always_intact_iff (zero : pmm.testBit 0 = true) (handled : Handled mem pmm s)
    (calls : List PagingCall) :
    Always call (fun s c => Intact mem (call s c)) s calls ↔ Always call FindsFrame s calls :=
  Always.iff_of_invariant (Handled mem pmm) (fun _ c handled => call_intact_iff zero handled c)
    (fun _ _ handled finds => handled.call finds) handled

/-! ### From the start -/

theorem init_handled (mem : Nat → FrameWords) {pmm : Pmm} (balanced : pmm.Balanced)
    (found : pmm.allocFrame.1 ≠ 0) : Handled mem pmm (Paging.init mem pmm) := by
  have account := Life.kernel_accounted mem balanced found
  rw [Life.kernel_paging] at account
  refine ⟨⟨_, account⟩, ?_⟩
  obtain ⟨zero, free⟩ := Pmm.zero_of_alloc balanced found
  have held := Paging.newDirectory_held (Paging.empty_held mem balanced zero) free
  have both : (Paging.init mem pmm).Held ∧ (Paging.init mem pmm).mem 0 = mem 0 :=
    Paging.createKernel_of (P := fun t => t.Held ∧ t.mem 0 = mem 0) ⟨held, Function.update_of_ne found.symm _ _⟩
      fun t i both => ⟨Paging.mapPage_held both.1 _ _ _ _, (mapPage_mem_zero both.1 _ _ _ _).trans both.2⟩
  exact both.2

theorem init_physDirs (mem : Nat → FrameWords) (pmm : Pmm) :
    (Paging.init mem pmm).dirs.map PageDirectory.physDir = [pmm.allocFrame.1] :=
  Paging.createKernel_of (P := fun t => t.dirs.map PageDirectory.physDir = [pmm.allocFrame.1]) rfl
    fun _ _ same => (Paging.mapPage_physDirs _ _ _ _ _).trans same

/-- **Exhaustion is handled**, exactly: all is intact throughout a run if and only if every constructor
of a page directory gets a frame. -/
theorem frame_exhaustion_iff (mem : Nat → FrameWords) (pmm : Pmm) (calls : List PagingCall)
    (balanced : pmm.Balanced) (zero : pmm.testBit 0 = true) :
    Intact mem (Paging.init mem pmm) ∧
        Always call (fun s c => Intact mem (call s c)) (Paging.init mem pmm) calls ↔
      pmm.allocFrame.1 ≠ 0 ∧ Always call FindsFrame (Paging.init mem pmm) calls := by
  by_cases found : pmm.allocFrame.1 = 0
  · refine iff_of_false (fun both => not_intact_of_mem ?_ both.1) fun both => both.1 found
    rw [init_physDirs, found]
    exact List.mem_cons_self
  · have handled := init_handled mem balanced found
    rw [and_iff_right (handled.intact zero), and_iff_right found, always_intact_iff zero handled]

/-- One process comes and goes on a kernel with 32 MiB. -/
theorem frame_exhaustion_one_process :
    Always call (fun s c => Intact (fun _ _ => 0#32) (call s c)) Paging.booted [.exec 1, .deleteUser 0] := by
  have held := Paging.booted_held
  have room := Paging.booted_freeFrames
  have found := Pmm.alloc_ne_zero Paging.roomy_balanced Paging.roomy_zero
    (Paging.roomy_balanced.finds (by decide))
  have finds : Paging.booted.pmm.allocFrame.1 ≠ 0 :=
    Pmm.alloc_ne_zero held.balanced held.zero (held.balanced.finds (by omega))
  exact ((frame_exhaustion_iff _ Paging.roomy [.exec 1, .deleteUser 0] Paging.roomy_balanced
    (by decide)).mpr ⟨found, finds, trivial, trivial⟩).2

/-! ### The pool of 128 frames -/

/-- The frames that a machine with 128 MiB keeps for paging: `[0x00F80000, 0x01000000)`. -/
def poolOf128 : Pmm := BootMemory.pmm ⟨0x00200000, 0x00D80000, 0x00F80000⟩ (fun _ => 0#32) 0x1FC00

theorem poolOf128_clearFrames : poolOf128.Balanced ∧ poolOf128.clearFrames = Finset.Ico 0xF80 0x1000 := by
  obtain ⟨balanced, clear⟩ := pmm_clearFrames ⟨0x00200000, 0x00D80000, 0x00F80000⟩ (fun _ => 0#32)
    0x1FC00 (by decide)
  refine ⟨balanced, Finset.ext fun frame => ?_⟩
  rw [poolOf128, clear, Finset.mem_Ico]
  have size : pmmPoolSize = 0x80000 := rfl
  dsimp only
  omega

theorem poolOf128_zero : poolOf128.testBit 0 = true := by
  obtain ⟨balanced, clear⟩ := poolOf128_clearFrames
  have total : poolOf128.totalFrames = 0x8000 := (Pmm.markFree_marks
    (Pmm.init_balanced (fun _ => 0#32) (show 0x8000000 < 2 ^ 32 by decide)) 0x00F80000 pmmPoolSize).total
  refine (Bool.not_eq_false _).mp fun unset => ?_
  have free := Pmm.mem_clearFrames.mpr ⟨by rw [total]; decide, unset⟩
  rw [clear] at free
  simp at free

theorem execs_length {pid : Nat} (n : Nat) (handled : Handled mem pmm s)
    (finds : Always call FindsFrame s (List.replicate n (.exec pid))) :
    Handled mem pmm ((List.replicate n (.exec pid)).foldl call s) ∧
      ((List.replicate n (.exec pid)).foldl call s).dirs.length = s.dirs.length + n := by
  induction n generalizing s with
  | zero => exact ⟨handled, rfl⟩
  | succ n ih =>
    obtain ⟨last, length⟩ := ih (handled.call finds.1) finds.2
    have one := congrArg List.length (processDirectory_physDirs handled pid)
    rw [List.length_append, List.length_map, List.length_map, List.length_singleton] at one
    refine ⟨last, length.trans ?_⟩
    show (processDirectory s pid).dirs.length + n = _
    omega

/-- **The pool runs out**: the kernel and 128 processes need more than 128 frames. -/
theorem pool_exhausted : ¬ ∀ (mem : Nat → FrameWords) (pmm : Pmm) (calls : List PagingCall),
    pmm.Balanced → pmm.testBit 0 = true → Intact mem (Paging.init mem pmm) ∧
      Always call (fun s c => Intact mem (call s c)) (Paging.init mem pmm) calls := by
  intro claim
  obtain ⟨balanced, clear⟩ := poolOf128_clearFrames
  have all := claim (fun _ _ => 0#32) poolOf128 (List.replicate 128 (.exec 1)) balanced poolOf128_zero
  have found : poolOf128.allocFrame.1 ≠ 0 := Pmm.alloc_ne_zero balanced
    (by rw [clear]; simp) (by rw [clear]; simp)
  have handled := init_handled (fun _ _ => 0#32) balanced found
  obtain ⟨⟨⟨made, account⟩, -⟩, length⟩ :=
    execs_length 128 handled ((always_intact_iff poolOf128_zero handled _).mp all.2)
  have one := congrArg List.length (init_physDirs (fun _ _ => 0#32) poolOf128)
  have count := account.ledger.count balanced
  rw [balanced.counted, clear, List.length_append, List.length_map, length, Nat.card_Ico] at count
  rw [List.length_map, List.length_singleton] at one
  omega

end LaylaOS.Kernel
