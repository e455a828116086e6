/-
**Pages that user programs can reach.**

A page is open to user programs if its directory entry and its table entry are present and have the
user flag. `MapPage` with `PAGE_USER_RW` sets both; a directory entry with the flag opens all pages of
its table that have it.
-/

import Mathlib.Data.Nat.Bitwise
import LaylaOS.Memory.Translation

namespace LaylaOS.Memory

open LaylaOS.Lib

/-- `PAGE_USER_RW`. -/
def pageUserRW : BitVec 32 := pagePresent ||| pageWrite ||| pageUser

/-- Present, and for user programs. -/
def forUsers (word : BitVec 32) : Bool := hasFlag word pagePresent && hasFlag word pageUser

namespace Paging

/-- Directory `d` opens the address to user programs. -/
def UserMapped (s : Paging) (d : Nat) (va : BitVec 32) : Prop :=
  ∃ dir ∈ s.dirs[d]?, (s.view dir va).user = true

/-- The entry of directory `d` for a table. -/
def UserTable (s : Paging) (d : Nat) (i : Fin 1024) : Prop :=
  ∃ dir ∈ s.dirs[d]?, forUsers (s.mem dir.physDir i) = true

/-- The entry for a page in a table of directory `d`. -/
def UserEntry (s : Paging) (d : Nat) (i j : Fin 1024) : Prop :=
  ∃ dir ∈ s.dirs[d]?, dir.pageTables i ≠ 0 ∧ forUsers (s.mem (dir.pageTables i) j) = true

/-- One turn of the loops of `Process::Process`. -/
def mapUser (d : Nat) (s : Paging) (va : BitVec 32) : Paging := s.mapPage d va va pageUserRW

variable {s : Paging} {d : Nat} {dir : PageDirectory} {va : BitVec 32}

theorem userTable_iff (here : s.dirs[d]? = some dir) (i : Fin 1024) :
    s.UserTable d i ↔ forUsers (s.mem dir.physDir i) = true := by
  simp [UserTable, here]

theorem userEntry_iff (here : s.dirs[d]? = some dir) (i j : Fin 1024) :
    s.UserEntry d i j ↔ dir.pageTables i ≠ 0 ∧ forUsers (s.mem (dir.pageTables i) j) = true := by
  simp [UserEntry, here]

theorem userMapped_iff (here : s.dirs[d]? = some dir) (va : BitVec 32) :
    s.UserMapped d va ↔ s.UserTable d (pdIndex va) ∧ s.UserEntry d (pdIndex va) (ptIndex va) := by
  rw [userTable_iff here, userEntry_iff here]
  simp only [UserMapped, here, Option.mem_def, Option.some.injEq, exists_eq_left', view, isMapped, forUsers]
  split_ifs with absent null
  · simp [absent]
  · simp [null]
  · simp [absent, null, Bool.and_assoc]
    tauto

/-! ### One mapping -/

theorem forUsers_or_left {a b : BitVec 32} (users : forUsers b = true) : forUsers (a ||| b) = true := by
  unfold forUsers at *
  rw [hasFlag_or, hasFlag_or]
  simp_all

theorem forUsers_pageEntry (pa : BitVec 32) : forUsers (pageEntry pa pageUserRW) = true := forUsers_or_left rfl

/-- What `MapPage` leaves in directory `d`, at both levels. -/
structure Opens (s t : Paging) (d : Nat) (dir dir' : PageDirectory) (va : BitVec 32) : Prop where
  here : t.dirs[d]? = some dir'
  entry : forUsers (t.mem dir'.physDir (pdIndex va)) = true
  entries : ∀ i ≠ pdIndex va, t.mem dir'.physDir i = s.mem dir.physDir i
  some : dir'.pageTables (pdIndex va) ≠ 0
  page : forUsers (t.mem (dir'.pageTables (pdIndex va)) (ptIndex va)) = true
  pages : ∀ j ≠ ptIndex va, forUsers (t.mem (dir'.pageTables (pdIndex va)) j) = true ↔
    dir.pageTables (pdIndex va) ≠ 0 ∧ forUsers (s.mem (dir.pageTables (pdIndex va)) j) = true
  tables : ∀ i ≠ pdIndex va, dir'.pageTables i = dir.pageTables i ∧
    (dir.pageTables i ≠ 0 → t.mem (dir.pageTables i) = s.mem (dir.pageTables i))

theorem mapUser_opens (held : s.Held) (here : s.dirs[d]? = some dir) (supplied : SuppliesTable d s va) :
    ∃ dir', Opens s (mapUser d s va) d dir dir' va := by
  have framed := held.framed (List.mem_of_getElem? here)
  obtain ⟨dir', enters⟩ : ∃ dir', Enters s (mapUser d s va) d dir dir' va va pageUserRW :=
    mapPage_enters framed here supplied va pageUserRW
  have words (i j : Fin 1024) (some : dir'.pageTables i ≠ 0) : (mapUser d s va).mem (dir'.pageTables i) j =
      Function.update (s.entry dir) (pageOf va) (pageEntry va pageUserRW) (i, j) := by
    rw [← enters.entries]
    exact (entry_of_some (i, j) some).symm
  refine ⟨dir', enters.here, ?_, enters.words, enters.some, ?_, fun j other => ?_, fun i other => ?_⟩
  · rw [forUsers, (enters.framed.present _).mpr enters.some, enters.user rfl]
    rfl
  · rw [words _ _ enters.some, show (pdIndex va, ptIndex va) = pageOf va from rfl, Function.update_self]
    exact forUsers_pageEntry va
  · rw [words _ _ enters.some, Function.update_of_ne fun same => other (congrArg Prod.snd same), entry]
    split_ifs with null
    · exact iff_of_false (by decide) fun both => both.1 null
    · exact (and_iff_right null).symm
  · refine ⟨enters.tables i other, fun some => funext fun j => ?_⟩
    have some' := some
    rw [← enters.tables i other] at some'
    have read := words i j some'
    rwa [enters.tables i other, Function.update_of_ne fun same => other (congrArg Prod.fst same),
      entry_of_some (i, j) some] at read

theorem mapUser_userTable (held : s.Held) (here : s.dirs[d]? = some dir)
    (supplied : SuppliesTable d s va) (i : Fin 1024) :
    (mapUser d s va).UserTable d i ↔ pdIndex va = i ∨ s.UserTable d i := by
  obtain ⟨dir', opens⟩ := mapUser_opens held here supplied
  rw [userTable_iff opens.here, userTable_iff here]
  by_cases same : pdIndex va = i
  · subst same
    exact iff_of_true opens.entry (.inl rfl)
  · rw [opens.entries i (Ne.symm same), or_iff_right same]

theorem mapUser_userEntry (held : s.Held) (here : s.dirs[d]? = some dir)
    (supplied : SuppliesTable d s va) (i j : Fin 1024) :
    (mapUser d s va).UserEntry d i j ↔ (pdIndex va = i ∧ ptIndex va = j) ∨ s.UserEntry d i j := by
  obtain ⟨dir', opens⟩ := mapUser_opens held here supplied
  rw [userEntry_iff opens.here, userEntry_iff here]
  by_cases same : pdIndex va = i
  · subst same
    rw [and_iff_right opens.some]
    by_cases last : ptIndex va = j
    · subst last
      exact iff_of_true opens.page (.inl ⟨rfl, rfl⟩)
    · rw [opens.pages j (Ne.symm last), or_iff_right fun both => last both.2]
  · obtain ⟨table, words⟩ := opens.tables i (Ne.symm same)
    rw [table, or_iff_right fun both => same both.1]
    exact and_congr_right fun some => by rw [words some]

/-! ### A loop of mappings -/

theorem mapUser_held (held : s.Held) (va : BitVec 32) : (mapUser d s va).Held :=
  mapPage_held held d va va pageUserRW

theorem mapUser_at (here : s.dirs[d]? = some dir) (va : BitVec 32) :
    ∃ dir', (mapUser d s va).dirs[d]? = some dir' := by
  have bound := (List.getElem?_eq_some_iff.mp here).1
  have bound' : d < (mapUser d s va).dirs.length := by rwa [mapUser, mapPage_length]
  exact ⟨_, List.getElem?_eq_getElem bound'⟩

theorem mapUsers_at (here : s.dirs[d]? = some dir) (pages : List (BitVec 32)) :
    ∃ dir', (pages.foldl (mapUser d) s).dirs[d]? = some dir' := by
  induction pages generalizing s dir with
  | nil => exact ⟨dir, here⟩
  | cons page pages ih =>
    obtain ⟨dir', next⟩ := mapUser_at here page
    exact ih next

theorem mapUsers_held (held : s.Held) (pages : List (BitVec 32)) : (pages.foldl (mapUser d) s).Held :=
  List.foldlRecOn pages _ held fun _ held page _ => mapUser_held held page

theorem mapUsers_freeFrames (s : Paging) (pages : List (BitVec 32)) :
    s.pmm.freeFrames ≤ (pages.foldl (mapUser d) s).pmm.freeFrames + pages.length :=
  foldl_freeFrames (fun t page => mapPage_freeFrames t d page page pageUserRW) pages s

theorem mapUsers_opens {A : Paging → Prop} {B : BitVec 32 → Prop}
    (step : ∀ {s : Paging} {dir : PageDirectory} {page : BitVec 32}, s.Held → s.dirs[d]? = some dir →
      SuppliesTable d s page → (A (mapUser d s page) ↔ B page ∨ A s))
    {pages : List (BitVec 32)} (held : s.Held) (here : s.dirs[d]? = some dir)
    (supplied : Always (mapUser d) (SuppliesTable d) s pages) :
    A (pages.foldl (mapUser d) s) ↔ (∃ page ∈ pages, B page) ∨ A s := by
  induction pages generalizing s dir with
  | nil => simp
  | cons page pages ih =>
    obtain ⟨dir', next⟩ := mapUser_at here page
    rw [List.foldl_cons, ih (mapUser_held held page) next supplied.2, step held here supplied.1]
    simp only [List.mem_cons, exists_eq_or_imp]
    exact or_left_comm.trans or_assoc.symm

theorem mapUsers_userTable {pages : List (BitVec 32)} (held : s.Held) (here : s.dirs[d]? = some dir)
    (supplied : Always (mapUser d) (SuppliesTable d) s pages) (i : Fin 1024) :
    (pages.foldl (mapUser d) s).UserTable d i ↔ (∃ page ∈ pages, pdIndex page = i) ∨ s.UserTable d i :=
  mapUsers_opens (A := fun s => s.UserTable d i)
    (fun held here supplied => mapUser_userTable held here supplied i) held here supplied

theorem mapUsers_userEntry {pages : List (BitVec 32)} (held : s.Held) (here : s.dirs[d]? = some dir)
    (supplied : Always (mapUser d) (SuppliesTable d) s pages) (i j : Fin 1024) :
    (pages.foldl (mapUser d) s).UserEntry d i j ↔
      (∃ page ∈ pages, pdIndex page = i ∧ ptIndex page = j) ∨ s.UserEntry d i j :=
  mapUsers_opens (A := fun s => s.UserEntry d i j)
    (fun held here supplied => mapUser_userEntry held here supplied i j) held here supplied

theorem mapUsers_supplied {pages : List (BitVec 32)} (held : s.Held)
    (room : pages.length ≤ s.pmm.freeFrames) : Always (mapUser d) (SuppliesTable d) s pages := by
  induction pages generalizing s with
  | nil => trivial
  | cons page pages ih =>
    rw [List.length_cons] at room
    have left := mapPage_freeFrames s d page page pageUserRW
    refine ⟨fun dir _ => .inr ?_, ih (mapUser_held held page) ?_⟩
    · exact Pmm.alloc_ne_zero held.balanced held.zero (held.balanced.finds (by omega))
    · show pages.length ≤ (s.mapPage d page page pageUserRW).pmm.freeFrames
      omega

/-! ### New user directories -/

/-- **A new user directory** has the entries and the tables of the kernel's. -/
theorem createUser_user (held : s.Held) (zero : s.dirs[0]? = some dir)
    (found : s.pmm.allocFrame.1 ≠ 0) (i j : Fin 1024) :
    (s.createUser.UserTable s.dirs.length i ↔ s.UserTable 0 i) ∧
      (s.createUser.UserEntry s.dirs.length i j ↔ s.UserEntry 0 i j) := by
  have member := List.mem_of_getElem? zero
  have last : s.createUser.dirs[s.dirs.length]? = some ⟨s.pmm.allocFrame.1, dir.pageTables⟩ := by
    rw [createUser_dirs zero, List.getElem?_concat_length]
  have fresh := held.fresh found
  have mem := createUser_mem zero (fresh _ (held.dirs dir member))
  rw [userTable_iff last, userTable_iff zero, userEntry_iff last, userEntry_iff zero, mem]
  dsimp only
  rw [Function.update_self]
  refine ⟨Iff.rfl, and_congr_right fun some => ?_⟩
  rw [Function.update_of_ne (fresh _ (held.tables dir member i some))]

/-! ### The kernel's pages -/

/-- No word of the memory has the user flag. -/
def Closed (s : Paging) : Prop := ∀ base j, hasFlag (s.mem base j) pageUser = false

theorem hasFlag_user_frame {addr : Nat} (aligned : addr % 4096 = 0) :
    hasFlag (BitVec.ofNat 32 addr) pageUser = false := by
  have bit : (addr % 2 ^ 32).testBit 2 = false := by
    rw [Nat.testBit_eq_decide_div_mod_eq, decide_eq_false_iff_not]
    omega
  rw [hasFlag, bne_eq_false_iff_eq]
  apply BitVec.eq_of_toNat_eq
  rw [BitVec.toNat_and, BitVec.toNat_ofNat]
  show (addr % 2 ^ 32) &&& 2 ^ 2 = 0
  rw [Nat.and_comm, Nat.two_pow_and, bit]
  rfl

theorem hasFlag_user_pageEntry (pa : BitVec 32) : hasFlag (pageEntry pa pageKernel) pageUser = false := by
  unfold pageEntry
  rw [hasFlag_or, hasFlag, BitVec.and_assoc, show (0xFFFFF000#32 &&& pageUser) = 0#32 from rfl, BitVec.and_zero]
  rfl

theorem Closed.store (closed : s.Closed) (base : Nat) (i : Fin 1024) {word : BitVec 32}
    (clear : hasFlag word pageUser = false) : (s.store base i word).Closed := by
  intro b j
  rw [store_mem]
  split_ifs
  · exact clear
  · exact closed b j

theorem Closed.memzero32 (closed : s.Closed) (base : Nat) : (s.memzero32 base).Closed := by
  intro b j
  show hasFlag (Function.update s.mem base _ b j) pageUser = false
  by_cases same : b = base
  · subst same
    rw [Function.update_self]
    rfl
  · rw [Function.update_of_ne same]
    exact closed b j

theorem Closed.addTable (closed : s.Closed) (held : s.Held) (d : Nat) (dir : PageDirectory)
    (pd : Fin 1024) : (s.addTable d dir pd pageKernel).Closed := by
  have aligned : s.pmm.allocFrame.1 % 4096 = 0 := by
    rcases Pmm.allocFrame_cases held.balanced with ⟨-, none⟩ | ⟨frame, -, -, addr, -⟩
    · simp [none]
    · rw [addr]
      exact Nat.mul_mod_left _ _
  have zeroed : Closed ({ s with pmm := s.pmm.allocFrame.2 }.memzero32 s.pmm.allocFrame.1) :=
    Closed.memzero32 (s := { s with pmm := s.pmm.allocFrame.2 }) closed _
  refine zeroed.store dir.physDir pd ?_
  rw [hasFlag_or, hasFlag_or, hasFlag_or, hasFlag_user_frame aligned]
  rfl

theorem Closed.mapPage (closed : s.Closed) (held : s.Held) (d : Nat) (va pa : BitVec 32) :
    (s.mapPage d va pa pageKernel).Closed := by
  have table : ∀ dir, (s.getOrCreatePageTable d dir (pdIndex va) pageKernel).2.Closed := by
    intro dir
    unfold getOrCreatePageTable
    rw [if_neg (show ¬ hasFlag pageKernel pageUser = true from nofun)]
    split_ifs
    · exact closed
    · exact closed
    · exact closed.addTable held d dir _
  unfold Paging.mapPage
  split
  · exact closed
  · dsimp only
    split_ifs
    · exact table _
    · exact (table _).store _ _ (hasFlag_user_pageEntry pa)

theorem init_closed {mem : Nat → FrameWords} {pmm : Pmm} (balanced : pmm.Balanced)
    (zero : 0 ∉ pmm.clearFrames) (free : pmm.clearFrames ≠ ∅)
    (clear : ∀ base j, hasFlag (mem base j) pageUser = false) : (init mem pmm).Closed := by
  have start : Closed { mem := mem, pmm := pmm, dirs := [] } := clear
  have both : (init mem pmm).Held ∧ (init mem pmm).Closed :=
    createKernel_of (P := fun t => t.Held ∧ t.Closed)
      ⟨newDirectory_held (empty_held mem balanced zero) free, start.memzero32 _⟩
      fun t i both => ⟨mapPage_held both.1 _ _ _ _, both.2.mapPage both.1 _ _ _⟩
  exact both.2

end Paging

end LaylaOS.Memory
