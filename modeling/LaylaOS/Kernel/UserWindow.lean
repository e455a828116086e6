/-
**Stores through user pointers.**

User programs live in the window `[0x00400000, 0x00D00000)`. Three handlers store through an address
from a register: `sys_readfile` checks it with `IsRing3Range`, `sys_read` and `sys_waitpid` do not
check it at all.

* `stores_in_window_iff` — the frames for which all such stores stay in the window.
-/

import LaylaOS.Kernel.Syscall

namespace LaylaOS.Kernel

open LaylaOS.Fs

/-- The user window. -/
def InWindow (addr : UInt32) : Prop := 0x00400000 ≤ addr.toNat ∧ addr.toNat < 0x00D00000

/-- `count` bytes from `addr` on lie in the window. -/
def FitsWindow (addr : UInt32) (count : Nat) : Prop :=
  count = 0 ∨ (0x00400000 ≤ addr.toNat ∧ addr.toNat + count ≤ 0x00D00000)

theorem toNat_add_ofNat {addr : UInt32} {k : Nat} (fits : addr.toNat + k < 2 ^ 32) :
    (addr + UInt32.ofNat k).toNat = addr.toNat + k := by
  rw [UInt32.toNat_add, UInt32.toNat_ofNat', Nat.mod_eq_of_lt (show k < 2 ^ 32 by omega), Nat.mod_eq_of_lt fits]

theorem FitsWindow.inWindow {addr : UInt32} {count k : Nat} (fits : FitsWindow addr count)
    (bound : k < count) : InWindow (addr + UInt32.ofNat k) := by
  rcases fits with empty | ⟨low, high⟩
  · omega
  · rw [InWindow, toNat_add_ofNat (by omega)]
    omega

theorem mem_storesAt {addr place : UInt32} {bytes : List UInt8} :
    (∃ byte, (place, byte) ∈ storesAt addr bytes) ↔ ∃ k < bytes.length, place = addr + UInt32.ofNat k := by
  unfold storesAt
  constructor
  · rintro ⟨byte, member⟩
    obtain ⟨⟨b, k⟩, inside, same⟩ := List.mem_map.mp member
    obtain ⟨bound, -⟩ := List.getElem?_eq_some_iff.mp (List.mem_zipIdx_iff_getElem?.mp inside)
    cases same
    exact ⟨k, bound, rfl⟩
  · rintro ⟨k, bound, rfl⟩
    refine ⟨bytes[k], List.mem_map.mpr ⟨(bytes[k], k), ?_, rfl⟩⟩
    exact List.mem_zipIdx_iff_getElem?.mpr (List.getElem?_eq_getElem bound)

/-- **A run of stores** stays in the window exactly if its first and last byte do. -/
theorem storesAt_inWindow_iff {addr : UInt32} {bytes : List UInt8} (short : bytes.length ≤ 65536) :
    (∀ store ∈ storesAt addr bytes, InWindow store.1) ↔ FitsWindow addr bytes.length := by
  have places : (∀ store ∈ storesAt addr bytes, InWindow store.1) ↔
      ∀ k < bytes.length, InWindow (addr + UInt32.ofNat k) := by
    constructor
    · intro all k bound
      obtain ⟨byte, member⟩ := mem_storesAt.mpr ⟨k, bound, rfl⟩
      exact all _ member
    · rintro all ⟨place, byte⟩ member
      obtain ⟨k, bound, rfl⟩ := mem_storesAt.mp ⟨byte, member⟩
      exact all k bound
  rw [places]
  constructor
  · intro all
    by_cases empty : bytes.length = 0
    · exact .inl empty
    · have first := all 0 (by omega)
      rw [show addr + UInt32.ofNat 0 = addr from UInt32.add_zero addr] at first
      have last := all (bytes.length - 1) (by omega)
      obtain ⟨above, below⟩ := first
      rw [InWindow, toNat_add_ofNat (by omega)] at last
      exact .inr ⟨above, by omega⟩
  · exact fun fits k bound => fits.inWindow bound

/-! ### Who stores -/

/-- The call, if it returns, has stored nothing through a register. -/
def Quiet (result : Option Outcome) : Prop := ∀ o, result = some o → o.stores = []

namespace Quiet

variable (w : World)

theorem none : Quiet Option.none := fun _ ran => by cases ran

theorem returns (eax : UInt32) : Quiet (some (w.returns eax)) := by
  rintro o ⟨⟩
  rfl

theorem map {α : Type} (result : Option α) {finish : α → Outcome}
    (each : ∀ a, (finish a).stores = []) : Quiet (result.map finish) := by
  intro o ran
  obtain ⟨a, -, rfl⟩ := Option.map_eq_some_iff.mp ran
  exact each a

theorem withPath (path : UInt32) {call : Volume → CString → Option Outcome}
    (each : ∀ v path, Quiet (call v path)) : Quiet (w.withPath path call) := by
  unfold World.withPath
  split
  · exact returns w _
  · split
    · exact each _ _
    · exact returns w _

theorem withPaths (src dst : UInt32) {call : Volume → CString → CString → Option Outcome}
    (each : ∀ v src dst, Quiet (call v src dst)) : Quiet (w.withPaths src dst call) := by
  unfold World.withPaths
  split
  · exact returns w _
  · split
    · exact each _ _ _
    · exact returns w _

theorem sysWrite (fd buf n : UInt32) : Quiet (some (w.sysWrite fd buf n)) := by
  unfold World.sysWrite
  split
  · exact returns w _
  · split <;> exact returns w _

theorem sysOpen (path flags : UInt32) : Quiet (w.sysOpen path flags) := by
  refine withPath w path fun v path => ?_
  split
  · exact map _ fun _ => rfl
  · exact returns w _

theorem sysExec (path : UInt32) : Quiet (w.sysExec path) := by
  unfold World.sysExec
  split
  · exact returns w _
  · refine withPath w path fun v path => map _ fun result => ?_
    cases result <;> rfl

theorem sysGetpid : Quiet (some w.sysGetpid) := by
  unfold World.sysGetpid
  split <;> exact returns w _

theorem sysLs (path : UInt32) : Quiet (w.sysLs path) := by
  unfold World.sysLs
  split
  · exact returns w _
  · split
    · exact returns w _
    · exact map _ fun _ => rfl

theorem sysIsdir (path : UInt32) : Quiet (w.sysIsdir path) := by
  unfold World.sysIsdir
  split
  · exact returns w _
  · split
    · exact returns w _
    · exact map _ fun _ => rfl

theorem sysMv (src dst : UInt32) : Quiet (w.sysMv src dst) := by
  refine withPaths w src dst fun v src dst o ran => ?_
  obtain ⟨⟨d, ok⟩, -, ran⟩ := Option.bind_eq_some_iff.mp ran
  cases ok with
  | false =>
    cases ran
    rfl
  | true =>
    obtain ⟨⟨d', b⟩, -, ran⟩ := Option.bind_eq_some_iff.mp ran
    cases ran
    rfl

theorem sysWritefile (path data len : UInt32) : Quiet (w.sysWritefile path data len) := by
  unfold World.sysWritefile
  split
  · exact returns w _
  · split
    · exact map _ fun _ => rfl
    · exact returns w _

theorem sysSetRawInput : Quiet (some w.sysSetRawInput) := by
  unfold World.sysSetRawInput
  split <;> exact returns w _

end Quiet

/-- **Three system calls store through a register**, none else. -/
theorem dispatch_stores (w : World) (frame : Frame) : Quiet (dispatch w frame) ∨
      (frame.eax = 3 ∧ dispatch w frame = w.sysRead frame.ebx frame.ecx frame.edx) ∨
      (frame.eax = 7 ∧ dispatch w frame = w.sysWaitpid frame.ebx frame.ecx) ∨
      (frame.eax = 93 ∧ dispatch w frame = w.sysReadfile frame.ebx frame.ecx frame.edx) := by
  unfold dispatch
  split
  · exact .inl .none
  · rename_i number
    exact .inr (.inl ⟨UInt32.toNat_inj.mp number, rfl⟩)
  · exact .inl (.sysWrite w _ _ _)
  · exact .inl (.sysOpen w _ _)
  · exact .inl (.withPath w _ fun _ _ => .map _ fun _ => rfl)
  · rename_i number
    exact .inr (.inr (.inl ⟨UInt32.toNat_inj.mp number, rfl⟩))
  · exact .inl (.sysExec w _)
  · exact .inl (.sysGetpid w)
  · exact .inl (.withPath w _ fun _ _ => .map _ fun _ => rfl)
  · exact .inl (.sysLs w _)
  · exact .inl (.sysIsdir w _)
  iterate 6
    · exact .inl (.returns w _)
  · exact .inl .none
  · exact .inl (.withPaths w _ _ fun _ _ _ => .map _ fun _ => rfl)
  · exact .inl (.sysMv w _ _)
  · exact .inl (.sysWritefile w _ _ _)
  · rename_i number
    exact .inr (.inr (.inr ⟨UInt32.toNat_inj.mp number, rfl⟩))
  · exact .inl (.sysSetRawInput w)
  · exact .inl (.returns w _)

/-! ### Who checks -/

theorem isRing3Range_of_window {addr len : UInt32} (low : 0x00400000 ≤ addr.toNat)
    (high : addr.toNat + len.toNat ≤ 0x00D00000) : isRing3Range addr len = true := by
  have sum : (addr + len).toNat = addr.toNat + len.toNat := by
    rw [UInt32.toNat_add]
    omega
  have first : (0x00400000 : UInt32).toNat = 0x00400000 := rfl
  have last : (0x00D00000 : UInt32).toNat = 0x00D00000 := rfl
  unfold isRing3Range
  split_ifs with none wraps shared
  · rfl
  · rw [UInt32.lt_iff_toNat_lt] at wraps
    omega
  · rfl
  · simp only [Bool.and_eq_true, decide_eq_true_eq, UInt32.le_iff_toNat_le, sum, first, last]
    omega

theorem fitsWindow_of_isRing3Range {addr len : UInt32} {count : Nat}
    (accepted : isRing3Range addr len = true) (within : count ≤ len.toNat) :
    FitsWindow addr count := by
  unfold isRing3Range netSharedBase at accepted
  by_cases empty : len = 0
  · rw [empty] at within
    exact .inl (Nat.le_zero.mp within)
  · rw [if_neg empty] at accepted
    by_cases wraps : addr + len < addr
    · rw [if_pos wraps] at accepted
      cases accepted
    · rw [if_neg wraps] at accepted
      have small := addr.toNat_lt
      have small' := len.toNat_lt
      rw [UInt32.lt_iff_toNat_lt, UInt32.toNat_add] at wraps
      have sum : (addr + len).toNat = addr.toNat + len.toNat := by
        rw [UInt32.toNat_add]
        omega
      have limit : (0x00600000 + 4096 : UInt32).toNat = 0x00601000 := rfl
      have base : (0x00600000 : UInt32).toNat = 0x00600000 := rfl
      have low : (0x00400000 : UInt32).toNat = 0x00400000 := rfl
      have high : (0x00D00000 : UInt32).toNat = 0x00D00000 := rfl
      simp only [Bool.and_eq_true, decide_eq_true_eq, UInt32.le_iff_toNat_le, sum, limit, base, low,
        high] at accepted
      refine .inr ?_
      split at accepted
      · omega
      · simp only [Bool.and_eq_true, decide_eq_true_eq] at accepted
        omega

theorem readLine_length_le (n : Nat) (keys : List UInt8) : (World.readLine n keys).length ≤ keys.length := by
  induction n generalizing keys with
  | zero => exact Nat.zero_le _
  | succ n ih =>
    cases keys with
    | nil => exact le_rfl
    | cons c rest =>
      rw [World.readLine]
      split
      · exact Nat.succ_le_succ (Nat.zero_le _)
      · exact Nat.succ_le_succ (ih rest)

/-- The pointer of `sys_read` has room for the bytes that are there to read, and the status pointer
of a `sys_waitpid` that returns has room for a word. -/
def WindowSafe (w : World) (frame : Frame) : Prop :=
  (frame.eax = 3 → frame.ebx = 0 →
    FitsWindow frame.ecx (World.readLine frame.edx.toNat w.keys.val).length) ∧
  (frame.eax = 7 → frame.ecx ≠ 0 →
    (w.scheduler.findProcess (toInt32 frame.ebx.toNat)).bind w.awaited ≠ none →
    FitsWindow frame.ecx 4)

/-- Every byte that the system call stores through a register is stored in the window. -/
def StoresInWindow (w : World) (frame : Frame) : Prop :=
  ∀ o, dispatch w frame = some o → ∀ store ∈ o.stores, InWindow store.1

theorem sysRead_iff (w : World) (fd buf n : UInt32) :
    (∀ o, w.sysRead fd buf n = some o → ∀ store ∈ o.stores, InWindow store.1) ↔
      (fd = 0 → FitsWindow buf (World.readLine n.toNat w.keys.val).length) := by
  have short : (World.readLine n.toNat w.keys.val).length ≤ 65536 := by
    have := readLine_length_le n.toNat w.keys.val
    have := w.keys.property
    omega
  unfold World.sysRead
  by_cases input : fd = 0
  · by_cases waiting : w.keys.val = []
    · have nothing : World.readLine n.toNat [] = [] := by cases n.toNat <;> rfl
      simp [input, waiting, nothing, FitsWindow]
    · simp only [input, ne_eq, not_true_eq_false, if_false, waiting, Option.some.injEq,
        forall_eq', forall_const]
      exact storesAt_inWindow_iff short
  · simp only [ne_eq, input, not_false_eq_true, if_true, Option.some.injEq, forall_eq', false_imp_iff, iff_true]
    exact fun store member => absurd member List.not_mem_nil

theorem sysWaitpid_iff (w : World) (pid status : UInt32) :
    (∀ o, w.sysWaitpid pid status = some o → ∀ store ∈ o.stores, InWindow store.1) ↔
      (status ≠ 0 → (w.scheduler.findProcess (toInt32 pid.toNat)).bind w.awaited ≠ none →
        FitsWindow status 4) := by
  unfold World.sysWaitpid
  cases w.scheduler.findProcess (toInt32 pid.toNat) with
  | none =>
    simp only [Option.some.injEq, forall_eq', Option.bind_none, ne_eq, not_true_eq_false,
      false_imp_iff, implies_true, iff_true]
    exact fun store member => absurd member List.not_mem_nil
  | some target =>
    simp only [Option.bind_some]
    cases w.awaited target with
    | none => simp
    | some exitCode =>
      by_cases null : status = 0
      · simp [null]
      · simp only [Option.map_some, null, if_false, Option.some.injEq, forall_eq', ne_eq,
          not_false_eq_true, reduceCtorEq, forall_const]
        exact storesAt_inWindow_iff (show (World.wordBytes _).length ≤ 65536 by
          exact (by decide : 4 ≤ 65536))

theorem sysReadfile_inWindow {w : World} {path out maxLen : UInt32} {o : Outcome}
    (ran : w.sysReadfile path out maxLen = some o) : ∀ store ∈ o.stores, InWindow store.1 := by
  unfold World.sysReadfile at ran
  split at ran
  · cases ran
    exact fun store member => absurd member List.not_mem_nil
  · split at ran
    · rename_i checked
      simp only [Bool.and_eq_true, decide_eq_true_eq] at checked
      obtain ⟨⟨⟨bounded, -⟩, accepted⟩, -⟩ := checked
      have most : maxLen.toNat ≤ 65536 := UInt32.le_iff_toNat_le.mp bounded
      obtain ⟨result, -, ran⟩ := Option.bind_eq_some_iff.mp ran
      cases result with
      | none =>
        cases ran
        exact fun store member => absurd member List.not_mem_nil
      | some file =>
        obtain ⟨size, bytes⟩ := file
        cases ran
        have length : (w.buffer bytes (min size maxLen.toNat)).length = min size maxLen.toNat := by
          simp [World.buffer]
        have within : min size maxLen.toNat ≤ maxLen.toNat := Nat.min_le_right _ _
        refine (storesAt_inWindow_iff (by omega)).mpr ?_
        rw [length]
        exact fitsWindow_of_isRing3Range accepted within
    · cases ran
      exact fun store member => absurd member List.not_mem_nil

/-- **All stores through registers stay in the user window exactly if** the pointers given to
`sys_read` and `sys_waitpid` do. -/
theorem stores_in_window_iff (w : World) (frame : Frame) : StoresInWindow w frame ↔ WindowSafe w frame := by
  unfold StoresInWindow WindowSafe
  by_cases read : frame.eax = 3
  · have runs : dispatch w frame = w.sysRead frame.ebx frame.ecx frame.edx := by
      unfold dispatch
      rw [read]
      rfl
    rw [runs, sysRead_iff]
    simp [read]
  · by_cases wait : frame.eax = 7
    · have runs : dispatch w frame = w.sysWaitpid frame.ebx frame.ecx := by
        unfold dispatch
        rw [wait]
        rfl
      rw [runs, sysWaitpid_iff]
      simp [wait]
    · refine iff_of_true (fun o ran => ?_) ⟨fun number => absurd number read, fun number => absurd number wait⟩
      rcases dispatch_stores w frame with quiet | ⟨number, -⟩ | ⟨number, -⟩ | ⟨-, runs⟩
      · rw [quiet o ran]
        exact fun store member => absurd member List.not_mem_nil
      · exact absurd number read
      · exact absurd number wait
      · exact sysReadfile_inWindow (runs ▸ ran)

/-- Nothing mounted, no process, and an `A` typed. -/
def typed : World where
  fat32 := none
  disk := fun _ _ => 0
  heap := true
  stale := fun _ => 0
  text := fun _ => ⟨[], by decide⟩
  memory := fun _ => 0
  scheduler := Scheduler.init
  keys := ⟨[65], by decide⟩
  deaths := fun _ => none
  terminal := true
  network := fun _ => 0

/-- **A read of one byte to 0x00100000** stores into the kernel. -/
theorem read_stores_into_kernel : ¬ ∀ (w : World) (frame : Frame), StoresInWindow w frame := by
  intro claim
  have inside := claim typed ⟨3, 0, 0x00100000, 1⟩ _ rfl (0x00100000, 65) (by decide)
  exact absurd inside.1 (by decide)

end LaylaOS.Kernel
