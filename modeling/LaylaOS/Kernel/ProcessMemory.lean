/-
**The memory of a process** (`kernel/process.cpp`).

`Process::Process` makes a user directory and maps the program at `0x00400000` and a stack that depends
on the process number. `IsRing3Range` accepts every address from `0x00400000` to `0x00D00000`.

* `validator_agrees_iff` — every range that is accepted is open exactly if all of the window is.
-/

import LaylaOS.Kernel.UserWindow
import LaylaOS.Memory.Heap
import LaylaOS.Memory.UserPages

namespace LaylaOS.Kernel

open LaylaOS.Lib LaylaOS.Memory

/-! ### The constructor -/

/-- `stack_base`. -/
def stackBase (pid : Nat) : Nat := (0x00C00000 + pid * 0x10000) % 2 ^ 32

/-- The addresses of a loop over the pages from `first` up to `last`. -/
def pagesBetween (first last : Nat) : List (BitVec 32) :=
  (List.range ((last - first) / 0x1000)).map fun k => BitVec.ofNat 32 (first + k * 0x1000)

/-- The pages that the constructor maps. The second loop does not run if `stack_base` is 0. -/
def userPages (pid : Nat) : List (BitVec 32) :=
  pagesBetween 0x00400000 0x00500000 ++ pagesBetween (sub32 (stackBase pid) 0x10000) (stackBase pid)

/-- The page directories after `Process::Process`; without a kernel directory it makes none. -/
def processDirectory (s : Paging) (pid : Nat) : Paging :=
  match s.dirs[0]? with
  | none => s
  | some _ => (userPages pid).foldl (Paging.mapUser s.dirs.length) s.createUser

/-- No `AllocFrame` of the constructor returns 0. -/
structure FramesAvailable (s : Paging) (pid : Nat) : Prop where
  directory : s.pmm.allocFrame.1 ≠ 0
  tables : Always (Paging.mapUser s.dirs.length) (Paging.SuppliesTable s.dirs.length) s.createUser
    (userPages pid)

/-! ### Pages -/

theorem pagesBetween_iff {first last : Nat} (aligned : first % 0x1000 = 0) (aligned' : last % 0x1000 = 0)
    (bound : last ≤ 2 ^ 32) (va : BitVec 32) :
    (∃ page ∈ pagesBetween first last, pdIndex page = pdIndex va ∧ ptIndex page = ptIndex va) ↔
      first ≤ va.toNat ∧ va.toNat < last := by
  simp only [samePage_iff]
  constructor
  · rintro ⟨page, member, same⟩
    obtain ⟨k, range, rfl⟩ := List.mem_map.mp member
    have low := List.mem_range.mp range
    rw [BitVec.toNat_ofNat, Nat.mod_eq_of_lt (by omega)] at same
    omega
  · rintro ⟨low, high⟩
    refine ⟨_, List.mem_map.mpr ⟨(va.toNat - first) / 0x1000, List.mem_range.mpr (by omega), rfl⟩, ?_⟩
    rw [BitVec.toNat_ofNat, Nat.mod_eq_of_lt (by omega)]
    omega

/-- The pages of the program. -/
def InProgram (va : BitVec 32) : Prop := 0x00400000 ≤ va.toNat ∧ va.toNat < 0x00500000

/-- The pages of the stack. -/
def InStack (pid : Nat) (va : BitVec 32) : Prop :=
  sub32 (stackBase pid) 0x10000 ≤ va.toNat ∧ va.toNat < stackBase pid

theorem userPages_iff (pid : Nat) (va : BitVec 32) :
    (∃ page ∈ userPages pid, pdIndex page = pdIndex va ∧ ptIndex page = ptIndex va) ↔
      InProgram va ∨ InStack pid va := by
  have base : stackBase pid % 0x10000 = 0 := by
    unfold stackBase
    omega
  have bound : stackBase pid < 2 ^ 32 := Nat.mod_lt _ (by decide)
  have first : sub32 (stackBase pid) 0x10000 % 0x1000 = 0 := by
    unfold sub32
    omega
  rw [InProgram, InStack, ← pagesBetween_iff (by decide) (by decide) (by decide),
    ← pagesBetween_iff first (by omega) bound.le]
  simp only [userPages, List.mem_append, or_and_right, exists_or]

/-! ### What is open to the process -/

/-- The page was open in a table of the kernel's directory, which the new directory shares, and the
entry for that table is open or is opened by one of the loops. -/
def AlreadyOpen (s : Paging) (pid : Nat) (va : BitVec 32) : Prop :=
  s.UserEntry 0 (pdIndex va) (ptIndex va) ∧
    (s.UserTable 0 (pdIndex va) ∨ ∃ page ∈ userPages pid, pdIndex page = pdIndex va)

section Process

variable {s : Paging} {kernel : PageDirectory} {pid : Nat}

theorem processDirectory_userMapped (held : s.Held) (zero : s.dirs[0]? = some kernel)
    (available : FramesAvailable s pid) (va : BitVec 32) :
    (processDirectory s pid).UserMapped s.dirs.length va ↔
      InProgram va ∨ InStack pid va ∨ AlreadyOpen s pid va := by
  have held' : s.createUser.Held :=
    Paging.createUser_held held (Pmm.zero_of_alloc held.balanced available.directory).2
  have last : s.createUser.dirs[s.dirs.length]? = some ⟨s.pmm.allocFrame.1, kernel.pageTables⟩ := by
    rw [Paging.createUser_dirs zero, List.getElem?_concat_length]
  obtain ⟨dir, there⟩ := Paging.mapUsers_at last (userPages pid)
  obtain ⟨table, entry⟩ := Paging.createUser_user held zero available.directory (pdIndex va) (ptIndex va)
  have made : processDirectory s pid = (userPages pid).foldl (Paging.mapUser s.dirs.length) s.createUser := by
    unfold processDirectory
    rw [zero]
  rw [made, Paging.userMapped_iff there, Paging.mapUsers_userTable held' last available.tables,
    Paging.mapUsers_userEntry held' last available.tables, table, entry, ← or_assoc, ← userPages_iff]
  unfold AlreadyOpen
  constructor
  · rintro ⟨opened, mapped | before⟩
    · exact .inl mapped
    · exact .inr ⟨before, opened.symm⟩
  · rintro (⟨page, member, same⟩ | ⟨before, opened⟩)
    · exact ⟨.inl ⟨page, member, same.1⟩, .inl ⟨page, member, same⟩⟩
    · exact ⟨opened.symm, .inr before⟩

/-- Every page of a range that `IsRing3Range` accepts is open in directory `d`. -/
def ValidatorAgrees (s : Paging) (d : Nat) : Prop :=
  ∀ addr len : UInt32, isRing3Range addr len = true →
    ∀ k < len.toNat, s.UserMapped d (BitVec.ofNat 32 (addr.toNat + k))

theorem validatorAgrees_iff_window (s : Paging) (d : Nat) : ValidatorAgrees s d ↔
    ∀ va : BitVec 32, 0x00400000 ≤ va.toNat → va.toNat < 0x00D00000 → s.UserMapped d va := by
  constructor
  · intro agrees va low high
    have word : (UInt32.ofNat va.toNat).toNat = va.toNat := UInt32.toNat_ofNat_of_lt' va.isLt
    have accepted : isRing3Range (UInt32.ofNat va.toNat) 1 = true :=
      isRing3Range_of_window (word.symm ▸ low) (word.symm ▸ high)
    have opened := agrees _ 1 accepted 0 (by decide)
    rwa [word, Nat.add_zero, BitVec.ofNat_toNat, BitVec.setWidth_eq] at opened
  · intro all addr len accepted k within
    rcases fitsWindow_of_isRing3Range accepted le_rfl with none | ⟨low, high⟩
    · omega
    · have small : addr.toNat + k < 2 ^ 32 := by omega
      refine all _ ?_ ?_
      · rw [BitVec.toNat_ofNat, Nat.mod_eq_of_lt small]
        omega
      · rw [BitVec.toNat_ofNat, Nat.mod_eq_of_lt small]
        omega

/-- **Validator and page tables**, exactly: every range that is accepted is open to the process if and
only if each page of the window is one of the program or the stack, or was open already. -/
theorem validator_agrees_iff (s : Paging) (pid : Nat) (kernel : PageDirectory) (held : s.Held)
    (zero : s.dirs[0]? = some kernel) (available : FramesAvailable s pid) :
    ValidatorAgrees (processDirectory s pid) s.dirs.length ↔
      ∀ va : BitVec 32, 0x00400000 ≤ va.toNat → va.toNat < 0x00D00000 →
        InProgram va ∨ InStack pid va ∨ AlreadyOpen s pid va := by
  rw [validatorAgrees_iff_window]
  simp only [processDirectory_userMapped held zero available]

/-! ### Enough frames -/

theorem userPages_length_le (pid : Nat) : (userPages pid).length ≤ 272 := by
  have bound : stackBase pid < 2 ^ 32 := Nat.mod_lt _ (by decide)
  simp only [userPages, pagesBetween, List.length_append, List.length_map, List.length_range, sub32]
  omega

theorem framesAvailable_of_room (held : s.Held) (room : 273 ≤ s.pmm.freeFrames) (pid : Nat) :
    FramesAvailable s pid := by
  have free := held.balanced.finds (show 0 < s.pmm.freeFrames by omega)
  have left := Paging.createUser_freeFrames s
  have pages := userPages_length_le pid
  exact ⟨Pmm.alloc_ne_zero held.balanced held.zero free,
    Paging.mapUsers_supplied (Paging.createUser_held held free) (by omega)⟩

theorem alreadyOpen_of_mapped {pages : List (BitVec 32)} (held : s.Held)
    (zero : s.dirs[0]? = some kernel) (room : pages.length ≤ s.pmm.freeFrames) {va : BitVec 32}
    (mapped : ∃ page ∈ pages, pdIndex page = pdIndex va ∧ ptIndex page = ptIndex va) (pid : Nat) :
    AlreadyOpen (pages.foldl (Paging.mapUser 0) s) pid va := by
  have supplied := Paging.mapUsers_supplied (d := 0) held room
  obtain ⟨page, member, same⟩ := mapped
  exact ⟨(Paging.mapUsers_userEntry held zero supplied _ _).mpr (.inl ⟨page, member, same⟩),
    .inl ((Paging.mapUsers_userTable held zero supplied _).mpr (.inl ⟨page, member, same.1⟩))⟩

end Process

/-- The booted kernel, whose own directory has opened the whole window. -/
def windowOpen : Paging := (pagesBetween 0x00400000 0x00D00000).foldl (Paging.mapUser 0) Paging.booted

theorem validator_agrees_window_open :
    ValidatorAgrees (processDirectory windowOpen 1) windowOpen.dirs.length := by
  obtain ⟨kernel, only, -⟩ := Paging.booted_kernel
  have zero : Paging.booted.dirs[0]? = some kernel := by rw [only]; rfl
  have room := Paging.booted_freeFrames
  have length : (pagesBetween 0x00400000 0x00D00000).length = 2304 := by
    rw [pagesBetween, List.length_map, List.length_range]
  have mapped : ∀ va : BitVec 32, (∃ page ∈ pagesBetween 0x00400000 0x00D00000,
      pdIndex page = pdIndex va ∧ ptIndex page = ptIndex va) ↔
      0x00400000 ≤ va.toNat ∧ va.toNat < 0x00D00000 :=
    pagesBetween_iff (by decide) (by decide) (by decide)
  unfold windowOpen
  generalize pagesBetween 0x00400000 0x00D00000 = pages at length mapped
  have held : (pages.foldl (Paging.mapUser 0) Paging.booted).Held :=
    Paging.mapUsers_held Paging.booted_held pages
  have left := Paging.mapUsers_freeFrames (d := 0) Paging.booted pages
  obtain ⟨dir, here⟩ := Paging.mapUsers_at zero pages
  refine (validator_agrees_iff _ 1 dir held here (framesAvailable_of_room held (by omega) 1)).mpr
    fun va low high => .inr (.inr ?_)
  exact alreadyOpen_of_mapped Paging.booted_held zero (by omega) ((mapped va).mpr ⟨low, high⟩) 1

/-- **The shared page is closed**: the first process of a kernel with 32 MiB cannot reach
`0x00600000`, which the validator accepts. -/
theorem shared_page_closed : ¬ ∀ (s : Paging) (pid : Nat) (kernel : PageDirectory), s.Held →
    s.dirs[0]? = some kernel → FramesAvailable s pid →
    ValidatorAgrees (processDirectory s pid) s.dirs.length := by
  intro claim
  obtain ⟨kernel, only, -⟩ := Paging.booted_kernel
  have zero : Paging.booted.dirs[0]? = some kernel := by rw [only]; rfl
  have room := Paging.booted_freeFrames
  have available := framesAvailable_of_room Paging.booted_held (by omega) 1
  have opened := (validatorAgrees_iff_window _ _).mp
    (claim _ 1 kernel Paging.booted_held zero available) 0x00600000#32 (by decide) (by decide)
  rw [processDirectory_userMapped Paging.booted_held zero available] at opened
  rcases opened with program | stack | ⟨⟨dir, -, -, users⟩, -⟩
  · exact absurd program.2 (by decide)
  · exact absurd stack.1 (by decide)
  · have closed : Paging.booted.Closed := Paging.init_closed Paging.roomy_balanced Paging.roomy_zero
      (Paging.roomy_balanced.finds (by decide)) fun _ _ => rfl
    rw [forUsers, closed, Bool.and_false] at users
    cases users

end LaylaOS.Kernel
