/-
**The life of page-table frames.**

The destructor of a page directory does not know which tables it has made: it frees those that are not
the kernel's. `made` lists, beside each directory, the tables that its own `MapPage` calls have made.

* `Life.page_table_frames` — the account of every run, its deletions, and what is left in the end.
-/

import LaylaOS.Memory.Ledger
import LaylaOS.Memory.Isolation

namespace LaylaOS.Memory

open LaylaOS.Lib

namespace Paging

/-- The tables that `MapPage` on directory `d` makes. -/
def madeBy (s : Paging) (d : Nat) (va : BitVec 32) : List Nat :=
  match s.dirs[d]? with
  | none => []
  | some dir =>
    if hasFlag (s.mem dir.physDir (pdIndex va)) pagePresent ∨ s.pmm.allocFrame.1 = 0 then []
    else [s.pmm.allocFrame.1]

/-- A table that the destructor of directory `d` would free. -/
def OwnTable (s : Paging) (d : Nat) (dir : PageDirectory) (i : Fin 1024) : Prop :=
  dir.pageTables i ≠ 0 ∧ dir.pageTables i ≠ s.kernelTable d i

/-- The account: since `before`, the frames of the directories and of the tables they have made have
been taken, and the tables that a directory has made are its own. -/
structure Accounted (before : Pmm) (s : Paging) (made : List (List Nat)) : Prop where
  zero : 0 ∉ before.clearFrames
  held : s.Held
  kernel : s.dirs ≠ []
  ledger : Pmm.Ledger before s.pmm (s.dirs.map PageDirectory.physDir ++ made.flatten)
  length : made.length = s.dirs.length
  tables : ∀ {d : Nat} {dir : PageDirectory} {tables : List Nat}, s.dirs[d]? = some dir →
    made[d]? = some tables → ∀ table, table ∈ tables ↔ ∃ i, s.OwnTable d dir i ∧ dir.pageTables i = table

variable {before : Pmm} {s : Paging} {made : List (List Nat)}

theorem Accounted.tables_of (account : Accounted before s made) {d : Nat} {dir : PageDirectory}
    (here : s.dirs[d]? = some dir) : ∃ tables, made[d]? = some tables := by
  have bound := (List.getElem?_eq_some_iff.mp here).1
  exact ⟨_, List.getElem?_eq_getElem (account.length ▸ bound)⟩

/-- **Every table has been made**, by its directory or by the kernel's. -/
theorem Accounted.table_made (account : Accounted before s made) {d : Nat} {dir : PageDirectory}
    (here : s.dirs[d]? = some dir) {i : Fin 1024} (there : dir.pageTables i ≠ 0) :
    ∃ e tables, (e = d ∨ e = 0) ∧ made[e]? = some tables ∧ dir.pageTables i ∈ tables := by
  by_cases own : dir.pageTables i = s.kernelTable d i
  · obtain ⟨kernel, rest, first⟩ := List.exists_cons_of_ne_nil account.kernel
    have zero : s.dirs[0]? = some kernel := by rw [first]; rfl
    obtain ⟨tables, beside⟩ := account.tables_of zero
    refine ⟨0, tables, .inr rfl, beside, (account.tables zero beside _).mpr ⟨i, ?_⟩⟩
    unfold OwnTable kernelTable at *
    simp only [zero] at own ⊢
    split_ifs at own with other
    · rw [own] at there ⊢
      exact ⟨⟨there, by simpa using there⟩, rfl⟩
    · exact absurd own there
  · obtain ⟨tables, beside⟩ := account.tables_of here
    exact ⟨d, tables, .inl rfl, beside, (account.tables here beside _).mpr ⟨i, ⟨there, own⟩, rfl⟩⟩

/-! ### New directories -/

/-- **`CreateUser`**: the new directory has made no table yet. -/
theorem Accounted.createUser (account : Accounted before s made) (found : s.pmm.allocFrame.1 ≠ 0) :
    Accounted before s.createUser (made ++ [[]]) := by
  obtain ⟨kernel, rest, first⟩ := List.exists_cons_of_ne_nil account.kernel
  have zero : s.dirs[0]? = some kernel := by rw [first]; rfl
  have free := (Pmm.zero_of_alloc account.held.balanced found).2
  have dirs := createUser_dirs zero
  have pmm : s.createUser.pmm = s.pmm.allocFrame.2 := by
    unfold Paging.createUser
    rw [zero]
    rfl
  refine ⟨account.zero, createUser_held account.held free, by simp [dirs], ?_,
    by simp [dirs, account.length], ?_⟩
  · rw [pmm, dirs, List.map_append, List.map_singleton, List.flatten_append]
    refine (account.ledger.alloc found).perm ?_
    simp only [List.flatten_cons, List.flatten_nil, List.append_nil, List.append_assoc, List.singleton_append]
    exact List.perm_middle.symm
  · intro d dir tables here beside table
    have same : ∀ i, s.createUser.kernelTable d i = s.kernelTable d i := by
      intro i
      unfold kernelTable
      rw [dirs, first]
      rfl
    rw [dirs] at here
    by_cases old : d < s.dirs.length
    · rw [List.getElem?_append_left old] at here
      rw [List.getElem?_append_left (account.length.symm ▸ old)] at beside
      rw [account.tables here beside]
      simp only [OwnTable, same]
    · -- the tables of the new directory are the kernel's
      have last : d = s.dirs.length := by
        have bound := (List.getElem?_eq_some_iff.mp here).1
        rw [List.length_append, List.length_singleton] at bound
        omega
      subst last
      rw [List.getElem?_concat_length] at here
      rw [← account.length, List.getElem?_concat_length] at beside
      cases here
      cases beside
      refine iff_of_false List.not_mem_nil ?_
      rintro ⟨i, ⟨-, other⟩, -⟩
      refine other ?_
      rw [same, kernelTable, zero]
      exact (if_pos (by rw [first]; exact Nat.succ_ne_zero _)).symm

/-! ### New tables -/

theorem mapPage_cases (held : s.Held) (d : Nat) (va pa flags : BitVec 32) :
    (s.madeBy d va = [] ∧ (s.mapPage d va pa flags).dirs = s.dirs ∧ (s.mapPage d va pa flags).pmm = s.pmm) ∨
      ∃ dir, s.dirs[d]? = some dir ∧ dir.pageTables (pdIndex va) = 0 ∧ s.pmm.allocFrame.1 ≠ 0 ∧
        s.madeBy d va = [s.pmm.allocFrame.1] ∧
        (s.mapPage d va pa flags).dirs = (s.addTable d dir (pdIndex va) flags).dirs ∧
        (s.mapPage d va pa flags).pmm = s.pmm.allocFrame.2 := by
  unfold mapPage madeBy getOrCreatePageTable
  cases here : s.dirs[d]? with
  | none => exact .inl ⟨rfl, rfl, rfl⟩
  | some dir =>
    dsimp only
    by_cases present : hasFlag (s.mem dir.physDir (pdIndex va)) pagePresent = true
    · rw [if_pos present, if_pos (.inl present)]
      refine .inl ⟨rfl, ?_⟩
      split_ifs <;> exact ⟨rfl, rfl⟩
    · rw [if_neg present]
      by_cases full : s.pmm.allocFrame.1 = 0
      · rw [if_pos full, if_pos (.inr full), if_pos rfl]
        rcases allocFrame_fresh held.balanced held.zero with ⟨-, same⟩ | ⟨-, -, own, -⟩
        · exact .inl ⟨rfl, rfl, by rw [same]⟩
        · exact absurd full own.1
      · have null : dir.pageTables (pdIndex va) = 0 := not_not.mp fun there =>
          present ((held.present dir (List.mem_of_getElem? here) _).mpr there)
        rw [if_neg full, if_neg (not_or.mpr ⟨present, full⟩), if_neg full]
        exact .inr ⟨dir, rfl, null, full, rfl, rfl, rfl⟩

theorem ownTable_addTable {d e : Nat} {dir old dir' : PageDirectory} {pd : Fin 1024}
    (held : s.Held) (here : s.dirs[d]? = some dir) (null : dir.pageTables pd = 0)
    (found : s.pmm.allocFrame.1 ≠ 0) (there : s.dirs[e]? = some old)
    (tables : ∀ i, dir'.pageTables i =
      if e = d ∧ i = pd then s.pmm.allocFrame.1 else old.pageTables i) (flags : BitVec 32)
    (i : Fin 1024) :
    (s.addTable d dir pd flags).OwnTable e dir' i ↔ e = d ∧ i = pd ∨ s.OwnTable e old i := by
  have fresh : ∀ {f : Nat} {any : PageDirectory} (j : Fin 1024), s.dirs[f]? = some any →
      any.pageTables j ≠ s.pmm.allocFrame.1 := fun j among same =>
    held.fresh found _ (held.tables _ (List.mem_of_getElem? among) j (same ▸ found)) same
  -- the table that the destructor compares with: the new one if it is the kernel's
  have compares : (s.addTable d dir pd flags).kernelTable e i =
      if e ≠ 0 ∧ d = 0 ∧ i = pd then s.pmm.allocFrame.1 else s.kernelTable e i := by
    have bound : 0 < (s.addTable d dir pd flags).dirs.length := by
      show 0 < (s.dirs.modify d _).length
      rw [List.length_modify]
      exact Nat.zero_lt_of_lt (List.getElem?_eq_some_iff.mp here).1
    have first := List.getElem?_eq_getElem bound
    obtain ⟨kernel, zero, -, entries⟩ := addTable_at first
    unfold kernelTable
    rw [first, zero]
    dsimp only
    rw [entries]
    by_cases kernels : e = 0
    · simp [kernels]
    · by_cases added : d = 0 ∧ i = pd
      · simp [kernels, added]
      · have others : ¬ (0 = d ∧ i = pd) := fun both => added ⟨both.1.symm, both.2⟩
        simp [kernels, added, others]
  unfold OwnTable
  rw [tables, compares]
  by_cases added : e = d ∧ i = pd
  · rw [if_pos added, if_neg fun kernels => kernels.1 (added.1.trans kernels.2.1)]
    refine iff_of_true ⟨found, fun same => ?_⟩ (.inl added)
    unfold kernelTable at same
    split at same
    · exact found same
    · rename_i kernel zero
      split_ifs at same
      · exact fresh i zero same.symm
      · exact found same
  · rw [if_neg added, or_iff_right added]
    split_ifs with kernels
    · -- the kernel had none there, so any table of `old` was its own, and is not the new one
      obtain ⟨user, rfl, rfl⟩ := kernels
      have none : s.kernelTable e i = 0 := by
        unfold kernelTable
        rw [here]
        exact (if_pos user).trans null
      rw [none]
      exact and_congr_right fun some => iff_of_true (fresh i there) some
    · exact Iff.rfl

theorem flatten_modify_perm (d : Nat) (more : List Nat) (bound : d < made.length) :
    (made.modify d (· ++ more)).flatten.Perm (more ++ made.flatten) := by
  induction made generalizing d with
  | nil => exact absurd bound (Nat.not_lt_zero _)
  | cons first made ih =>
    cases d with
    | zero =>
      simp only [List.modify_zero_cons, List.flatten_cons, ← List.append_assoc]
      exact List.perm_append_comm.append_right _
    | succ d =>
      simp only [List.modify_succ_cons, List.flatten_cons]
      refine ((ih d (Nat.lt_of_succ_lt_succ bound)).append_left first).trans ?_
      simp only [← List.append_assoc]
      exact List.perm_append_comm.append_right _

/-- **`MapPage`**: the table that it makes, if any, is entered for its directory. -/
theorem Accounted.mapPage (account : Accounted before s made) (d : Nat) (va pa flags : BitVec 32) :
    Accounted before (s.mapPage d va pa flags) (made.modify d (· ++ s.madeBy d va)) := by
  have held := mapPage_held account.held d va pa flags
  rcases mapPage_cases account.held d va pa flags with
    ⟨none, dirs, pmm⟩ | ⟨dir, here, null, found, one, dirs, pmm⟩
  · have same : made.modify d (· ++ s.madeBy d va) = made := by
      rw [none]
      simp only [List.append_nil]
      exact List.modify_id _ _
    rw [same]
    refine ⟨account.zero, held, dirs ▸ account.kernel, by rw [pmm, dirs]; exact account.ledger,
      by rw [dirs]; exact account.length, fun there beside table => ?_⟩
    rw [dirs] at there
    rw [account.tables there beside]
    simp only [OwnTable, kernelTable, dirs]
  · have bound : d < made.length := account.length ▸ (List.getElem?_eq_some_iff.mp here).1
    refine ⟨account.zero, held, ?_, ?_, by rw [List.length_modify, mapPage_length, account.length], ?_⟩
    · rw [← List.length_pos_iff_ne_nil, mapPage_length]
      exact List.length_pos_iff_ne_nil.mpr account.kernel
    · rw [pmm, dirs, addTable_physDirs, one]
      refine (account.ledger.alloc found).perm ?_
      refine List.Perm.trans ?_ ((flatten_modify_perm d _ bound).symm.append_left _)
      rw [List.singleton_append]
      exact List.perm_middle.symm
    · intro e dir' tables there beside table
      rw [dirs] at there
      obtain ⟨old, there, -, entries⟩ := addTable_at there
      have owns : ∀ i, (s.mapPage d va pa flags).OwnTable e dir' i ↔
          e = d ∧ i = pdIndex va ∨ s.OwnTable e old i := by
        intro i
        rw [← ownTable_addTable account.held here null found there entries flags i]
        simp only [OwnTable, kernelTable, dirs]
      simp only [owns, entries]
      rw [one, List.getElem?_modify] at beside
      obtain ⟨tables', listed, rfl⟩ := Option.map_eq_some_iff.mp beside
      by_cases mine : d = e
      · subst mine
        cases here.symm.trans there
        rw [if_pos rfl, List.mem_append, account.tables here listed, List.mem_singleton]
        constructor
        · rintro (⟨i, own, rfl⟩ | rfl)
          · refine ⟨i, .inr own, if_neg fun both => own.1 ?_⟩
            rw [both.2, null]
          · exact ⟨pdIndex va, .inl ⟨rfl, rfl⟩, if_pos ⟨rfl, rfl⟩⟩
        · rintro ⟨i, ⟨-, rfl⟩ | own, rfl⟩
          · exact .inr (if_pos ⟨rfl, rfl⟩)
          · refine .inl ⟨i, own, (if_neg fun both => own.1 ?_).symm⟩
            rw [both.2, null]
      · have other : ¬ e = d := fun same => mine same.symm
        rw [if_neg mine]
        simp only [other, false_and, false_or, if_false]
        exact account.tables there listed table

/-! ### Deleted directories -/

theorem destroy_length (s : Paging) (d : Nat) :
    (s.destroy d).dirs.length = if d < s.dirs.length then s.dirs.length - 1 else s.dirs.length := by
  unfold destroy
  split
  · rename_i none
    rw [if_neg (Nat.not_lt_of_le (List.getElem?_eq_none_iff.mp none))]
  · exact List.length_eraseIdx ..

theorem destroy_first (s : Paging) (n : Nat) : (s.destroy (n + 1)).dirs[0]? = s.dirs[0]? := by
  unfold destroy
  split
  · rfl
  · exact List.getElem?_eraseIdx_of_lt (Nat.succ_pos n)

/-- The frames that are left when directory `d` goes. -/
def kept (s : Paging) (made : List (List Nat)) (d : Nat) : List Nat :=
  (s.dirs.eraseIdx d).map PageDirectory.physDir ++ (made.eraseIdx d).flatten

section Destroy

variable {d : Nat} {dir : PageDirectory} {tables : List Nat} (account : Accounted before s made)
  (here : s.dirs[d]? = some dir) (beside : made[d]? = some tables)
include account here beside

/-- **The destructor** frees the frame of the directory and the tables that it has made. -/
theorem Accounted.frees_perm : (s.frees d dir).Perm (dir.physDir :: tables) := by
  have member := List.mem_of_getElem? here
  refine (List.perm_append_singleton _ _).trans (List.Perm.cons _ ?_)
  refine (List.perm_ext_iff_of_nodup ?_ ?_).mpr fun table => ?_
  · refine ((List.nodup_finRange 1024).filter _).map_on fun i own j _ same => ?_
    exact account.held.sameIndex dir member dir member i j (of_decide_eq_true (List.mem_filter.mp own).2).1 same
  · obtain ⟨-, distinct, -⟩ := List.nodup_append.mp account.ledger.distinct
    exact (List.nodup_flatten.mp distinct).1 _ (List.mem_of_getElem? beside)
  · rw [account.tables here beside, List.mem_map]
    simp [OwnTable]

theorem Accounted.parted : Pmm.Ledger before s.pmm (s.frees d dir ++ kept s made d) := by
  refine account.ledger.perm ?_
  obtain ⟨bound, rfl⟩ := List.getElem?_eq_some_iff.mp here
  obtain ⟨bound', rfl⟩ := List.getElem?_eq_some_iff.mp beside
  have dirs := (List.getElem_cons_eraseIdx_perm bound).symm.map PageDirectory.physDir
  have lists := (List.getElem_cons_eraseIdx_perm bound').symm.flatten
  have freed := (account.frees_perm here beside).symm
  refine (dirs.append lists).trans (List.Perm.trans ?_ (freed.append_right _))
  rw [List.map_cons, List.flatten_cons, List.cons_append, List.cons_append]
  refine List.Perm.cons _ ?_
  simp only [kept, ← List.append_assoc]
  exact List.perm_append_comm.append_right _

omit account here beside in
theorem physDir_kept {e : Nat} {other : PageDirectory} (differs : e ≠ d)
    (there : s.dirs[e]? = some other) : other.physDir ∈ kept s made d :=
  List.mem_append_left _ (List.mem_map_of_mem (List.mem_eraseIdx_iff_getElem?.mpr ⟨e, differs, there⟩))

omit here beside in
theorem Accounted.table_kept {e : Nat} {other : PageDirectory} (user : d ≠ 0) (differs : e ≠ d)
    (there : s.dirs[e]? = some other) {i : Fin 1024} (some : other.pageTables i ≠ 0) :
    other.pageTables i ∈ kept s made d := by
  obtain ⟨f, list, whose, listed, member⟩ := account.table_made there some
  refine List.mem_append_right _ (List.mem_flatten.mpr ⟨list, ?_, member⟩)
  refine List.mem_eraseIdx_iff_getElem?.mpr ⟨f, ?_, listed⟩
  rcases whose with rfl | rfl
  · exact differs
  · exact user.symm

end Destroy

/-- Where an entry stood before entry `d` went. -/
def formerIndex (d e : Nat) : Nat := if e < d then e else e + 1

theorem getElem?_eraseIdx_former {α : Type} (list : List α) (d e : Nat) :
    (list.eraseIdx d)[e]? = list[formerIndex d e]? := by
  rw [List.getElem?_eraseIdx, formerIndex]
  split_ifs <;> rfl

theorem Accounted.held_erase {d : Nat} {pmm : Pmm} (account : Accounted before s made) (user : d ≠ 0)
    (ledger : Pmm.Ledger before pmm (kept s made d)) :
    Held { s with pmm := pmm, dirs := s.dirs.eraseIdx d } := by
  have held := account.held
  have frame : ∀ addr ∈ kept s made d, addr ≠ 0 → HeldFrame pmm addr := fun addr member some =>
    ⟨some, (ledger.frames addr member).1, (ledger.used member).2⟩
  have former : ∀ {other : PageDirectory}, other ∈ s.dirs.eraseIdx d →
      ∃ e, e ≠ d ∧ s.dirs[e]? = some other := fun member => List.mem_eraseIdx_iff_getElem?.mp member
  have still : ∀ {other : PageDirectory}, other ∈ s.dirs.eraseIdx d → other ∈ s.dirs :=
    fun member => List.mem_of_mem_eraseIdx member
  refine ⟨ledger.marks.balanced, ?_, ?_, ?_, ?_, ?_, ?_, ?_⟩
  · rw [ledger.clearFrames_eq]
    exact fun clear => account.zero (Finset.mem_sdiff.mp clear).1
  · intro other member
    obtain ⟨e, differs, there⟩ := former member
    exact frame _ (physDir_kept differs there) (held.dirs other (still member)).1
  · exact held.distinct.sublist ((List.eraseIdx_sublist _ _).map _)
  · intro other member i some
    obtain ⟨e, differs, there⟩ := former member
    exact frame _ (account.table_kept user differs there some) some
  · exact fun other member i another member' => held.apart other (still member) i another (still member')
  · exact fun other member another member' => held.sameIndex other (still member) another (still member')
  · exact fun other member => held.present other (still member)

/-- **`delete`** of a user directory strikes it and its tables out. -/
theorem Accounted.destroy {d : Nat} (account : Accounted before s made) (user : d ≠ 0) :
    Accounted before (s.destroy d) (made.eraseIdx d) := by
  unfold Paging.destroy
  cases here : s.dirs[d]? with
  | none =>
    have bound := List.getElem?_eq_none_iff.mp here
    have same : made.eraseIdx d = made := List.eraseIdx_of_length_le (account.length ▸ bound)
    rw [same]
    exact account
  | some dir =>
    obtain ⟨tables, beside⟩ := account.tables_of here
    have bound := (List.getElem?_eq_some_iff.mp here).1
    have first : (s.dirs.eraseIdx d)[0]? = s.dirs[0]? := List.getElem?_eraseIdx_of_lt (Nat.pos_of_ne_zero user)
    have ledger := (account.parted here beside).free
    dsimp only
    generalize (s.frees d dir).foldl Pmm.freeFrame s.pmm = pmm at ledger ⊢
    refine ⟨account.zero, account.held_erase user ledger, ?_, ledger, ?_, ?_⟩
    · intro none
      replace none : s.dirs.eraseIdx d = [] := none
      rw [none] at first
      exact absurd (Nat.zero_lt_of_lt bound) (by simpa using first.symm)
    · show (made.eraseIdx d).length = (s.dirs.eraseIdx d).length
      rw [List.length_eraseIdx, List.length_eraseIdx, account.length]
    · intro e other list there listed table
      replace there : (s.dirs.eraseIdx d)[e]? = some other := there
      rw [getElem?_eraseIdx_former] at there listed
      rw [account.tables there listed]
      have zero : formerIndex d e = 0 ↔ e = 0 := by
        unfold formerIndex
        split_ifs
        · exact Iff.rfl
        · exact iff_of_false id (by omega)
      simp only [OwnTable, kernelTable, first, ne_eq, zero]

end Paging

/-! ### Runs -/

/-- The page directories, and beside each of them the tables that it has made. -/
structure Life where
  paging : Paging
  made : List (List Nat)

/-- A call on the page directories; the user directories are numbered behind the kernel's. -/
inductive LifeOp
  | createUser
  | mapPage (d : Nat) (va pa flags : BitVec 32)
  | deleteUser (n : Nat)

namespace Life

def step (s : Life) : LifeOp → Life
  | .createUser => ⟨s.paging.createUser, s.made ++ [[]]⟩
  | .mapPage d va pa flags =>
    ⟨s.paging.mapPage d va pa flags, s.made.modify d (· ++ s.paging.madeBy d va)⟩
  | .deleteUser n => ⟨s.paging.destroy (n + 1), s.made.eraseIdx (n + 1)⟩

/-- The frames of the live directories and of the tables that they have made. -/
def owned (s : Life) : List Nat := s.paging.dirs.map PageDirectory.physDir ++ s.made.flatten

/-- The constructor gets a frame. Whether `MapPage` gets one for a table does not matter. -/
def Supplied (s : Life) : LifeOp → Prop
  | .createUser => s.paging.pmm.allocFrame.1 ≠ 0
  | _ => True

/-- The destructor frees what the directory has made, each frame once; each is in use, and no other
directory has it. -/
structure FreesOnly (s : Life) (d : Nat) (dir : PageDirectory) (tables : List Nat) : Prop where
  own : (s.paging.frees d dir).Perm (dir.physDir :: tables)
  once : (s.paging.frees d dir).Nodup
  used : ∀ addr ∈ s.paging.frees d dir, s.paging.pmm.testBit (addr / 4096) = true
  others : ∀ e ≠ d, ∀ other ∈ s.paging.dirs[e]?, other.physDir ∉ s.paging.frees d dir ∧
    ∀ i, other.pageTables i ∉ s.paging.frees d dir

def FreesOwn (s : Life) : LifeOp → Prop
  | .deleteUser n => ∀ dir ∈ s.paging.dirs[n + 1]?, ∃ tables ∈ s.made[n + 1]?,
      s.FreesOnly (n + 1) dir tables
  | _ => True

/-- `new PageDirectory()` of `CreateKernel`. -/
def fresh (mem : Nat → FrameWords) (pmm : Pmm) : Life :=
  ⟨Paging.newDirectory { mem := mem, pmm := pmm, dirs := [] }, [[]]⟩

/-- The calls of `CreateKernel` on its directory. -/
def kernelMaps : List LifeOp := (List.range 4096).map fun i =>
  .mapPage 0 (Paging.pageAddress i) (Paging.pageAddress i) pageKernel

/-- The state after `CreateKernel`. -/
def kernel (mem : Nat → FrameWords) (pmm : Pmm) : Life := kernelMaps.foldl step (fresh mem pmm)

theorem kernel_paging (mem : Nat → FrameWords) (pmm : Pmm) : (kernel mem pmm).paging = Paging.init mem pmm := by
  unfold kernel kernelMaps Paging.init Paging.createKernel
  generalize List.range 4096 = pages
  rw [List.foldl_map]
  show _ = pages.foldl _ (fresh mem pmm).paging
  generalize fresh mem pmm = s
  induction pages generalizing s with
  | nil => rfl
  | cons first pages ih => exact ih _

/-- What is left when all user directories are gone: what was there after `CreateKernel`, and the
tables that the kernel's directory has made since. -/
def Restored (kernel s : Life) : Prop :=
  ∃ tables since, kernel.made = [tables] ∧ s.made = [tables ++ since] ∧
    kernel.paging.pmm.Ledger s.paging.pmm since ∧
    s.paging.pmm.freeFrames + since.length = kernel.paging.pmm.freeFrames

variable {before : Pmm} {s : Life}

/-- **One call** keeps the account. -/
theorem step_accounted {op : LifeOp} (account : Paging.Accounted before s.paging s.made)
    (supplied : s.Supplied op) : Paging.Accounted before (s.step op).paging (s.step op).made := by
  cases op with
  | createUser => exact account.createUser supplied
  | mapPage d va pa flags => exact account.mapPage d va pa flags
  | deleteUser n => exact account.destroy (Nat.succ_ne_zero n)

theorem fresh_accounted (mem : Nat → FrameWords) {pmm : Pmm} (balanced : pmm.Balanced)
    (found : pmm.allocFrame.1 ≠ 0) :
    Paging.Accounted pmm (fresh mem pmm).paging (fresh mem pmm).made := by
  obtain ⟨zero, free⟩ := Pmm.zero_of_alloc balanced found
  refine ⟨zero, Paging.newDirectory_held (Paging.empty_held mem balanced zero) free,
    List.cons_ne_nil _ _, (Pmm.Ledger.nil balanced).alloc found, rfl, ?_⟩
  intro d dir tables here beside table
  cases d with
  | succ d => cases here
  | zero =>
    cases here
    cases beside
    refine iff_of_false List.not_mem_nil ?_
    rintro ⟨i, own, -⟩
    exact own.1 rfl

theorem kernel_accounted (mem : Nat → FrameWords) {pmm : Pmm} (balanced : pmm.Balanced)
    (found : pmm.allocFrame.1 ≠ 0) :
    Paging.Accounted pmm (kernel mem pmm).paging (kernel mem pmm).made := by
  have maps : ∀ op ∈ kernelMaps, ∀ s : Life, s.Supplied op := by
    intro op member s
    obtain ⟨i, -, rfl⟩ := List.mem_map.mp member
    trivial
  unfold kernel
  generalize kernelMaps = ops at maps
  exact List.foldlRecOn ops step (fresh_accounted mem balanced found) fun s account op member =>
    step_accounted account (maps op member s)

theorem frees_own (account : Paging.Accounted before s.paging s.made) (op : LifeOp) : s.FreesOwn op := by
  cases op with
  | createUser => trivial
  | mapPage => trivial
  | deleteUser n =>
    intro dir here
    obtain ⟨tables, beside⟩ := account.tables_of here
    have parted := account.parted here beside
    obtain ⟨once, -, apart⟩ := List.nodup_append.mp parted.distinct
    refine ⟨tables, beside, account.frees_perm here beside, once,
      fun addr member => (parted.used (List.mem_append_left _ member)).2, fun e differs other there => ?_⟩
    refine ⟨fun freed => ?_, fun i freed => ?_⟩
    · exact apart _ freed _ (Paging.physDir_kept differs there) rfl
    · have some : other.pageTables i ≠ 0 := by
        intro null
        have frame := (parted.frames _ (List.mem_append_left _ freed)).2
        rw [null] at frame
        exact account.zero frame
      exact apart _ freed _ (account.table_kept (Nat.succ_ne_zero n) differs there some) rfl

/-! ### The kernel's directory -/

/-- The kernel's directory has its frame, and has made tables since. -/
def Grown (addr : Nat) (tables : List Nat) (s : Life) : Prop :=
  (s.paging.dirs.map PageDirectory.physDir)[0]? = some addr ∧
    ∃ since, s.made[0]? = some (tables ++ since)

theorem Grown.step {addr : Nat} {tables : List Nat} (grown : s.Grown addr tables)
    (account : Paging.Accounted before s.paging s.made) (op : LifeOp) :
    (s.step op).Grown addr tables := by
  obtain ⟨first, since, beside⟩ := grown
  have bound := (List.getElem?_eq_some_iff.mp first).1
  have bound' := (List.getElem?_eq_some_iff.mp beside).1
  cases op with
  | createUser =>
    refine ⟨?_, since, ?_⟩
    · obtain ⟨kernel, rest, dirs⟩ := List.exists_cons_of_ne_nil account.kernel
      show (s.paging.createUser.dirs.map _)[0]? = _
      rw [Paging.createUser_dirs (by rw [dirs]; rfl), List.map_append, List.getElem?_append_left bound]
      exact first
    · exact (List.getElem?_append_left bound').trans beside
  | mapPage d va pa flags =>
    refine ⟨?_, ?_⟩
    · show ((s.paging.mapPage d va pa flags).dirs.map _)[0]? = _
      rw [Paging.mapPage_physDirs]
      exact first
    · show ∃ since, (s.made.modify d _)[0]? = _
      rw [List.getElem?_modify, beside]
      by_cases kernels : d = 0
      · exact ⟨since ++ s.paging.madeBy d va, by simp [kernels]⟩
      · exact ⟨since, by simp [kernels]⟩
  | deleteUser n =>
    refine ⟨?_, since, ?_⟩
    · show ((s.paging.destroy (n + 1)).dirs.map _)[0]? = _
      rw [List.getElem?_map] at first ⊢
      rw [Paging.destroy_first]
      exact first
    · exact (List.getElem?_eraseIdx_of_lt (Nat.succ_pos n)).trans beside

theorem Grown.owned {addr : Nat} {tables : List Nat} (grown : s.Grown addr tables)
    (account : Paging.Accounted before s.paging s.made) (alone : s.paging.dirs.length = 1) :
    ∃ since, s.made = [tables ++ since] ∧ s.owned = addr :: tables ++ since := by
  obtain ⟨first, since, beside⟩ := grown
  obtain ⟨dir, dirs⟩ := List.length_eq_one_iff.mp alone
  obtain ⟨list, made⟩ := List.length_eq_one_iff.mp (account.length.trans alone)
  rw [dirs] at first
  rw [made] at beside
  cases first
  cases beside
  refine ⟨since, made, ?_⟩
  rw [Life.owned, dirs, made]
  simp

theorem restored {addr : Nat} {tables : List Nat} {start : Life}
    (account : Paging.Accounted before start.paging start.made) (begins : start.made = [tables])
    (owned : start.owned = addr :: tables) (account' : Paging.Accounted before s.paging s.made)
    (grown : s.Grown addr tables) (alone : s.paging.dirs.length = 1) : Restored start s := by
  obtain ⟨since, made, owned'⟩ := grown.owned account' alone
  have first : before.Ledger start.paging.pmm (addr :: tables) := owned ▸ account.ledger
  have whole : before.Ledger s.paging.pmm (addr :: tables ++ since) := owned' ▸ account'.ledger
  have later := first.since whole
  exact ⟨tables, since, begins, made, later, later.count first.marks.balanced⟩

theorem kernel_alone (mem : Nat → FrameWords) (pmm : Pmm) : (kernel mem pmm).paging.dirs.length = 1 := by
  rw [kernel_paging, Paging.init]
  exact Paging.createKernel_length _

/-- **The life of page-table frames.** After every run of calls whose directories get a frame: the
frames taken from the manager are the directories and the tables they have made, each once; each
deletion has freed those of its directory; and with no user directory left, what was taken since
`CreateKernel` is what the kernel's directory has made. -/
theorem page_table_frames (mem : Nat → FrameWords) (pmm : Pmm) (ops : List LifeOp)
    (balanced : pmm.Balanced) (found : pmm.allocFrame.1 ≠ 0)
    (supplied : Always step Supplied (kernel mem pmm) ops) :
    pmm.Ledger (ops.foldl step (kernel mem pmm)).paging.pmm (ops.foldl step (kernel mem pmm)).owned ∧
      Always step FreesOwn (kernel mem pmm) ops ∧
      ((ops.foldl step (kernel mem pmm)).paging.dirs.length = 1 →
        Restored (kernel mem pmm) (ops.foldl step (kernel mem pmm))) := by
  have account := kernel_accounted mem balanced found
  have keeps : ∀ (s : Life) (op : LifeOp), Paging.Accounted pmm s.paging s.made → s.Supplied op →
      Paging.Accounted pmm (s.step op).paging (s.step op).made := fun s op => step_accounted
  have account' := supplied.invariant keeps account
  refine ⟨account'.ledger, supplied.mono_of_invariant (fun s op account _ => frees_own account op) keeps
    account, fun alone => ?_⟩
  -- the frame and the tables of the kernel's directory after `CreateKernel`
  obtain ⟨dir, dirs⟩ := List.length_eq_one_iff.mp (kernel_alone mem pmm)
  obtain ⟨tables, made⟩ := List.length_eq_one_iff.mp (account.length.trans (kernel_alone mem pmm))
  have begun : (kernel mem pmm).Grown dir.physDir tables :=
    ⟨by rw [dirs]; rfl, [], by rw [made, List.append_nil]; rfl⟩
  have owned : (kernel mem pmm).owned = dir.physDir :: tables := by
    rw [Life.owned, dirs, made]
    simp
  have grows : ∀ (s : Life) (op : LifeOp),
      Paging.Accounted pmm s.paging s.made ∧ s.Grown dir.physDir tables → s.Supplied op →
      Paging.Accounted pmm (s.step op).paging (s.step op).made ∧ (s.step op).Grown dir.physDir tables :=
    fun s op both given => ⟨keeps s op both.1 given, both.2.step both.1 op⟩
  exact restored account made owned account' (supplied.invariant grows ⟨account, begun⟩).2 alone

/-- A user directory that gets a table of its own and is deleted. -/
def oneUser : List LifeOp := [.createUser, .mapPage 1 0x40000000#32 0x200000#32 pageKernel, .deleteUser 0]

theorem page_table_frames_one_user : Restored (kernel (fun _ _ => 0#32) Paging.roomy)
      (oneUser.foldl step (kernel (fun _ _ => 0#32) Paging.roomy)) := by
  have found : Paging.roomy.allocFrame.1 ≠ 0 :=
    Pmm.alloc_ne_zero Paging.roomy_balanced Paging.roomy_zero (Paging.roomy_balanced.finds (by decide))
  have same : (kernel (fun _ _ => 0#32) Paging.roomy).paging = Paging.booted := kernel_paging _ _
  have room := Paging.booted_freeFrames
  have held := Paging.booted_held
  have supplied : Always step Supplied (kernel (fun _ _ => 0#32) Paging.roomy) oneUser := by
    refine ⟨?_, trivial, trivial, trivial⟩
    show (kernel _ _).paging.pmm.allocFrame.1 ≠ 0
    rw [same]
    exact Pmm.alloc_ne_zero held.balanced held.zero (held.balanced.finds (by omega))
  refine (page_table_frames _ _ oneUser Paging.roomy_balanced found supplied).2.2 ?_
  obtain ⟨dir, only, -⟩ := Paging.booted_kernel
  simp only [oneUser, List.foldl_cons, List.foldl_nil, step, same]
  rw [Paging.destroy_length, Paging.mapPage_length, Paging.createUser_dirs (by rw [only]; rfl), only]
  rfl

end Life

end LaylaOS.Memory
