/-
**What a page directory sees of another one's mappings.**

`CreateUser` copies the pointers to the page tables of `kernel_dir`, so a table is common to all
directories that have it, and what one of them writes there the others see.

* `isolated_iff` — where every new directory gets a frame, the runs in which all calls are isolated are
  those in which all calls agree.
-/

import LaylaOS.Lib.Steps
import LaylaOS.Memory.Paging

namespace LaylaOS.Memory

open LaylaOS.Lib

/-- What a directory says about an address. -/
structure PageView where
  physical : BitVec 32
  mapped : Bool
  user : Bool
  writable : Bool
  deriving DecidableEq, Repr

namespace Paging

/-- The translation, the presence and the effective permissions: those of the directory entry and of
the table entry together. -/
def view (s : Paging) (dir : PageDirectory) (va : BitVec 32) : PageView :=
  let pde := s.mem dir.physDir (pdIndex va)
  let pte := s.mem (dir.pageTables (pdIndex va)) (ptIndex va)
  { physical := s.getPhysical dir va
    mapped := s.isMapped dir va
    user := s.isMapped dir va && hasFlag pde pageUser && hasFlag pte pageUser
    writable := s.isMapped dir va && hasFlag pde pageWrite && hasFlag pte pageWrite }

/-- The view through directory `e`. -/
def viewOf (s : Paging) (e : Nat) (va : BitVec 32) : Option PageView :=
  s.dirs[e]?.map fun dir => s.view dir va

/-- No view through another directory changes. -/
def SameViews (d : Nat) (s t : Paging) : Prop := ∀ e ≠ d, ∀ va, t.viewOf e va = s.viewOf e va

/-- A `MapPage` or `UnmapPage` changes no view through another directory. -/
def Isolated (s : Paging) : PagingOp → Prop
  | .mapPage d va pa flags => SameViews d s (s.mapPage d va pa flags)
  | .unmapPage d va => SameViews d s (s.unmapPage d va)
  | _ => True

/-- What a table entry says of an address, under a directory entry. -/
def entryView (va pde pte : BitVec 32) : PageView :=
  if hasFlag pte pagePresent then
    { physical := (pte &&& 0xFFFFF000#32) ||| (va &&& 0xFFF#32)
      mapped := true
      user := hasFlag pde pageUser && hasFlag pte pageUser
      writable := hasFlag pde pageWrite && hasFlag pte pageWrite }
  else { physical := 0#32, mapped := false, user := false, writable := false }

/-- For every other directory with the same table as `d`, the entry says of the address what the
entry in the table says. -/
def AgreesWithSharers (s : Paging) (d : Nat) (va entry : BitVec 32) : Prop :=
  ∀ dir ∈ s.dirs[d]?, dir.pageTables (pdIndex va) ≠ 0 → ∀ e ≠ d, ∀ other ∈ s.dirs[e]?,
    other.pageTables (pdIndex va) = dir.pageTables (pdIndex va) →
    entryView va (s.mem other.physDir (pdIndex va)) entry =
      entryView va (s.mem other.physDir (pdIndex va))
        (s.mem (dir.pageTables (pdIndex va)) (ptIndex va))

/-- No other directory has the table that is written, or the written entry says the same to it. -/
def Agrees (s : Paging) : PagingOp → Prop
  | .mapPage d va pa flags => s.AgreesWithSharers d va (pageEntry pa flags)
  | .unmapPage d va => s.AgreesWithSharers d va 0#32
  | _ => True

/-- `AllocFrame` has a frame for a new directory. -/
def FindsFrame (s : Paging) : PagingOp → Prop
  | .createKernel => s.pmm.clearFrames ≠ ∅
  | .createUser => s.pmm.clearFrames ≠ ∅
  | _ => True

/-! ### One entry -/

theorem entryView_offset {va pde a b : BitVec 32} (same : entryView va pde a = entryView va pde b)
    (va' : BitVec 32) : entryView va' pde a = entryView va' pde b := by
  unfold entryView at *
  split_ifs at same ⊢ with first second second
  · simp only [PageView.mk.injEq] at same ⊢
    obtain ⟨physical, rest⟩ := same
    refine ⟨?_, rest⟩
    have frame (x : BitVec 32) : (x &&& 0xFFFFF000#32 ||| va &&& 0xFFF#32) &&& 0xFFFFF000#32 =
        x &&& 0xFFFFF000#32 := by
      rw [BitVec.and_or_distrib_right, BitVec.and_assoc, BitVec.and_assoc,
        show 0xFFFFF000#32 &&& 0xFFFFF000#32 = 0xFFFFF000#32 from rfl,
        show 0xFFF#32 &&& 0xFFFFF000#32 = 0#32 from rfl, BitVec.and_zero, BitVec.or_zero]
    rw [← frame a, ← frame b, physical]
  · simp at same
  · simp at same
  · rfl

theorem view_eq {s : Paging} (held : s.Held) {dir : PageDirectory} (member : dir ∈ s.dirs)
    (va : BitVec 32) : s.view dir va =
      if dir.pageTables (pdIndex va) = 0 then entryView va 0#32 0#32
      else entryView va (s.mem dir.physDir (pdIndex va))
        (s.mem (dir.pageTables (pdIndex va)) (ptIndex va)) := by
  have present := held.present dir member (pdIndex va)
  unfold view getPhysical isMapped
  by_cases null : dir.pageTables (pdIndex va) = 0
  · simp [null, entryView, hasFlag]
  · have there := present.mpr null
    unfold entryView
    by_cases entry : hasFlag (s.mem (dir.pageTables (pdIndex va)) (ptIndex va)) pagePresent
    · simp [there, null, entry]
    · simp [there, null, entry]

theorem SparesOthers.sameViews {d : Nat} {s t : Paging} (spares : SparesOthers d s t) (held : s.Held)
    (next : t.Held) : SameViews d s t := by
  intro e differs va
  obtain ⟨list, entries⟩ := spares e differs
  unfold viewOf
  rw [list]
  cases there : s.dirs[e]? with
  | none => rfl
  | some other =>
    obtain ⟨frame, tables⟩ := entries other there
    rw [Option.map_some, Option.map_some, view_eq held (List.mem_of_getElem? there),
      view_eq next (List.mem_of_getElem? (list.trans there)), frame]
    split_ifs with null
    · rfl
    · rw [tables _ null]

/-- **An entry of a table is written.** The others see no difference exactly if the entry says the
same to those that have the table. -/
theorem sameViews_store_iff {s : Paging} (held : s.Held) {d table : Nat} {va word : BitVec 32}
    (found : ∃ dir ∈ s.dirs, dir.pageTables (pdIndex va) = table) (some : table ≠ 0) :
    SameViews d s (s.store table (ptIndex va) word) ↔
      ∀ e ≠ d, ∀ other ∈ s.dirs[e]?, other.pageTables (pdIndex va) = table →
        entryView va (s.mem other.physDir (pdIndex va)) word =
          entryView va (s.mem other.physDir (pdIndex va)) (s.mem table (ptIndex va)) := by
  obtain ⟨dir, member, rfl⟩ := found
  have next : (s.store (dir.pageTables (pdIndex va)) (ptIndex va) word).Held := held.storeTable member ..
  refine forall_congr' fun e => forall_congr' fun differs => ?_
  unfold viewOf
  show (∀ va', (s.dirs[e]?).map _ = (s.dirs[e]?).map _) ↔ _
  cases there : s.dirs[e]? with
  | none => simp
  | some other =>
    have member' := List.mem_of_getElem? there
    have frame : (s.store (dir.pageTables (pdIndex va)) (ptIndex va) word).mem other.physDir =
        s.mem other.physDir :=
      store_mem_other s _ _ (held.apart dir member _ other member').symm
    simp only [Option.map_some, Option.some.injEq, Option.mem_def, forall_eq']
    constructor
    · intro same shared
      have here := same va
      have null : other.pageTables (pdIndex va) ≠ 0 := by rwa [shared]
      rw [view_eq next member', view_eq held member', if_neg null, if_neg null, frame, shared,
        store_mem, if_pos ⟨rfl, rfl⟩] at here
      exact here
    · intro agree va'
      rw [view_eq next member', view_eq held member', frame, store_mem]
      split_ifs with null here
      · rfl
      · obtain ⟨shared, pt⟩ := here
        have pd := held.sameIndex other member' dir member _ _ null shared
        rw [shared, pt]
        rw [pd] at shared ⊢
        exact entryView_offset (agree shared) va'
      · rfl

/-! ### One call -/

theorem SameViews.trans_iff {d : Nat} {s t u : Paging} (first : SameViews d s t) :
    SameViews d s u ↔ SameViews d t u := by
  refine forall_congr' fun e => forall_congr' fun differs => forall_congr' fun va => ?_
  rw [first e differs va]

theorem agreesWithSharers_of_null {s : Paging} {d : Nat} {dir : PageDirectory} {va : BitVec 32}
    (entry : BitVec 32) (here : s.dirs[d]? = some dir) (null : dir.pageTables (pdIndex va) = 0) :
    s.AgreesWithSharers d va entry := by
  intro dir' there some
  cases here.symm.trans there
  exact absurd null some

theorem agreesWithSharers_iff {s : Paging} {d : Nat} {dir : PageDirectory} {va : BitVec 32}
    (entry : BitVec 32) (here : s.dirs[d]? = some dir) (some : dir.pageTables (pdIndex va) ≠ 0) :
    s.AgreesWithSharers d va entry ↔ ∀ e ≠ d, ∀ other ∈ s.dirs[e]?,
      other.pageTables (pdIndex va) = dir.pageTables (pdIndex va) →
      entryView va (s.mem other.physDir (pdIndex va)) entry = entryView va (s.mem other.physDir (pdIndex va))
          (s.mem (dir.pageTables (pdIndex va)) (ptIndex va)) := by
  unfold AgreesWithSharers
  simp only [here, Option.mem_def, Option.some.injEq, forall_eq', some, ne_eq, not_false_eq_true, forall_const]

theorem mapPage_isolated_iff {s : Paging} (held : s.Held) (d : Nat) (va pa flags : BitVec 32) :
    SameViews d s (s.mapPage d va pa flags) ↔ s.AgreesWithSharers d va (pageEntry pa flags) := by
  cases here : s.dirs[d]? with
  | none =>
    unfold mapPage AgreesWithSharers
    rw [here]
    exact iff_of_true (fun _ _ _ => rfl) fun _ none => by cases none
  | some dir =>
    cases result : s.getOrCreatePageTable d dir (pdIndex va) flags with
    | mk table t =>
      obtain ⟨next, spares, found, owner⟩ := getOrCreatePageTable_cases held _ flags here result
      have same := spares.sameViews held next
      rw [mapPage_eq pa here result]
      split_ifs with none
      · refine iff_of_true same (agreesWithSharers_of_null _ here ?_)
        rcases owner with rfl | ⟨null, -⟩
        · exact none
        · exact null
      · rw [same.trans_iff, sameViews_store_iff next (found none) none]
        rcases owner with rfl | ⟨null, fresh⟩
        · rw [agreesWithSharers_iff _ here none]
          refine forall_congr' fun e => forall_congr' fun differs => ?_
          obtain ⟨list, entries⟩ := spares e differs
          rw [list]
          refine forall_congr' fun other => forall_congr' fun there => forall_congr' fun shared => ?_
          obtain ⟨frame, tables⟩ := entries other there
          rw [frame, ← shared, tables _ (by rwa [shared])]
        · refine iff_of_true (fun e differs other there shared => ?_) (agreesWithSharers_of_null _ here null)
          rw [Option.mem_def, (spares e differs).1] at there
          rw [← shared] at none
          exact absurd shared (fresh other (List.mem_of_getElem? there) _ none)

theorem unmapPage_isolated_iff {s : Paging} (held : s.Held) (d : Nat) (va : BitVec 32) :
    SameViews d s (s.unmapPage d va) ↔ s.AgreesWithSharers d va 0#32 := by
  unfold unmapPage
  cases here : s.dirs[d]? with
  | none =>
    unfold AgreesWithSharers
    rw [here]
    exact iff_of_true (fun _ _ _ => rfl) fun _ none => by cases none
  | some dir =>
    have member := List.mem_of_getElem? here
    dsimp only
    split_ifs with absent null
    · refine iff_of_true (fun _ _ _ => rfl) (agreesWithSharers_of_null _ here ?_)
      by_contra some
      rw [(held.present dir member _).mpr some] at absent
      cases absent
    · exact iff_of_true (fun _ _ _ => rfl) (agreesWithSharers_of_null _ here null)
    · rw [sameViews_store_iff held ⟨dir, member, rfl⟩ null]
      exact (agreesWithSharers_iff _ here null).symm

/-! ### Runs -/

theorem step_held {s : Paging} (held : s.Held) {op : PagingOp} (finds : s.FindsFrame op) :
    (s.step op).Held := by
  cases op with
  | createKernel =>
    rw [step]
    exact createKernel_held held finds
  | createUser => exact createUser_held held finds
  | mapPage d va pa flags => exact mapPage_held held d va pa flags
  | unmapPage d va => exact unmapPage_held held d va

theorem step_isolated_iff {s : Paging} (held : s.Held) (op : PagingOp) : s.Isolated op ↔ s.Agrees op := by
  cases op with
  | createKernel => exact Iff.rfl
  | createUser => exact Iff.rfl
  | mapPage d va pa flags => exact mapPage_isolated_iff held d va pa flags
  | unmapPage d va => exact unmapPage_isolated_iff held d va

theorem always_isolated_iff {s : Paging} (held : s.Held) {ops : List PagingOp}
    (finds : Always step FindsFrame s ops) : Always step Isolated s ops ↔ Always step Agrees s ops := by
  induction ops generalizing s with
  | nil => exact Iff.rfl
  | cons op ops ih =>
    rw [Always, Always, step_isolated_iff held op, ih (step_held held finds.1) finds.2]

theorem empty_held (mem : Nat → FrameWords) {pmm : Pmm} (balanced : pmm.Balanced)
    (zero : 0 ∉ pmm.clearFrames) : Held { mem := mem, pmm := pmm, dirs := [] } := by
  refine ⟨balanced, zero, ?_, List.nodup_nil, ?_, ?_, ?_, ?_⟩
  all_goals exact fun dir none => absurd none List.not_mem_nil

theorem init_held (mem : Nat → FrameWords) {pmm : Pmm} (balanced : pmm.Balanced)
    (zero : 0 ∉ pmm.clearFrames) (free : pmm.clearFrames ≠ ∅) : (init mem pmm).Held :=
  createKernel_held (empty_held mem balanced zero) free

/-- **Isolation of page directories**, exactly: with a frame for each new directory, no call is seen
through another directory if and only if every call agrees with those that share its table. -/
theorem isolated_iff (mem : Nat → FrameWords) (pmm : Pmm) (ops : List PagingOp)
    (balanced : pmm.Balanced) (zero : 0 ∉ pmm.clearFrames) (free : pmm.clearFrames ≠ ∅)
    (finds : Always step FindsFrame (init mem pmm) ops) :
    Always step Isolated (init mem pmm) ops ↔ Always step Agrees (init mem pmm) ops :=
  always_isolated_iff (init_held mem balanced zero free) finds

/-! ### The tables of `CreateKernel` -/

theorem mapPage_freeFrames (s : Paging) (d : Nat) (va pa flags : BitVec 32) :
    s.pmm.freeFrames ≤ (s.mapPage d va pa flags).pmm.freeFrames + 1 := by
  have alloc := s.pmm.allocFrame_freeFrames
  unfold mapPage getOrCreatePageTable
  split
  · exact Nat.le_succ _
  · dsimp only
    split_ifs
    all_goals first | exact Nat.le_succ _ | exact alloc

theorem mapPage_dirs (s : Paging) (d : Nat) (va pa flags : BitVec 32) :
    (s.mapPage d va pa flags).dirs = s.dirs ∨ s.pmm.allocFrame.1 ≠ 0 ∧
      (s.mapPage d va pa flags).dirs = s.dirs.modify d fun dir =>
        { dir with pageTables := Function.update dir.pageTables (pdIndex va) s.pmm.allocFrame.1 } := by
  unfold mapPage getOrCreatePageTable
  split
  · exact .inl rfl
  · dsimp only
    split_ifs
    all_goals first | exact .inl rfl | exact .inr ⟨‹_›, rfl⟩

theorem mapPage_physDirs (s : Paging) (d : Nat) (va pa flags : BitVec 32) :
    (s.mapPage d va pa flags).dirs.map PageDirectory.physDir = s.dirs.map PageDirectory.physDir := by
  rcases mapPage_dirs s d va pa flags with same | ⟨-, added⟩
  · rw [same]
  · rw [added]
    exact addTable_physDirs s d ⟨0, fun _ => 0⟩ (pdIndex va) flags

theorem mapPage_length (s : Paging) (d : Nat) (va pa flags : BitVec 32) :
    (s.mapPage d va pa flags).dirs.length = s.dirs.length := by
  have lengths := congrArg List.length (mapPage_physDirs s d va pa flags)
  rwa [List.length_map, List.length_map] at lengths

/-- Directory `d` has a table at the index. -/
def HasTable (s : Paging) (d : Nat) (i : Fin 1024) : Prop := ∃ dir ∈ s.dirs[d]?, dir.pageTables i ≠ 0

theorem HasTable.mapPage {s : Paging} {d : Nat} {i : Fin 1024} (has : s.HasTable d i) (e : Nat)
    (va pa flags : BitVec 32) : (s.mapPage e va pa flags).HasTable d i := by
  obtain ⟨dir, there, some⟩ := has
  unfold HasTable
  rcases mapPage_dirs s e va pa flags with same | ⟨frame, added⟩
  · rw [same]
    exact ⟨dir, there, some⟩
  · rw [added, List.getElem?_modify, there]
    refine ⟨_, rfl, ?_⟩
    split_ifs
    · dsimp only
      rw [Function.update_apply]
      split_ifs
      · exact frame
      · exact some
    · exact some

theorem mapPage_hasTable {s : Paging} (held : s.Held) {d : Nat} {dir : PageDirectory}
    (here : s.dirs[d]? = some dir) (room : 0 < s.pmm.freeFrames) (va pa flags : BitVec 32) :
    (s.mapPage d va pa flags).HasTable d (pdIndex va) := by
  by_cases some : dir.pageTables (pdIndex va) = 0
  · have absent : ¬ hasFlag (s.mem dir.physDir (pdIndex va)) pagePresent = true := fun present =>
      (held.present dir (List.mem_of_getElem? here) _).mp present some
    have frame : s.pmm.allocFrame.1 ≠ 0 := by
      rcases allocFrame_fresh held.balanced held.zero with ⟨full, -⟩ | ⟨-, -, own, -⟩
      · exact absurd full (held.balanced.finds room)
      · exact own.1
    have result : s.getOrCreatePageTable d dir (pdIndex va) flags =
        (s.pmm.allocFrame.1, s.addTable d dir (pdIndex va) flags) := by
      rw [getOrCreatePageTable, if_neg absent, if_neg frame]
    rw [mapPage_eq pa here result, if_neg frame]
    refine ⟨_, addTable_self (pdIndex va) flags here, ?_⟩
    show Function.update dir.pageTables (pdIndex va) _ (pdIndex va) ≠ 0
    rwa [Function.update_self]
  · exact HasTable.mapPage ⟨dir, here, some⟩ d va pa flags

theorem foldl_hasTable {d : Nat} (pages : List Nat) {s : Paging} (held : s.Held)
    (bound : d < s.dirs.length) (room : pages.length < s.pmm.freeFrames) {page : Nat}
    (member : page ∈ pages) :
    (pages.foldl (fun t i => t.mapPage d (pageAddress i) (pageAddress i) pageKernel) s).HasTable d
      (pdIndex (pageAddress page)) := by
  induction pages generalizing s with
  | nil => cases member
  | cons first pages ih =>
    have left := mapPage_freeFrames s d (pageAddress first) (pageAddress first) pageKernel
    rw [List.length_cons] at room
    rw [List.foldl_cons]
    rcases List.mem_cons.mp member with rfl | later
    · have here := List.getElem?_eq_getElem bound
      have added := mapPage_hasTable held here (by omega) (pageAddress page) (pageAddress page) pageKernel
      exact List.foldlRecOn (motive := fun t => HasTable t d (pdIndex (pageAddress page))) pages _
        added fun t has i _ => has.mapPage _ _ _ _
    · exact ih (mapPage_held held _ _ _ _) (by rwa [mapPage_length]) (by omega) later

/-- **`CreateKernel` has a table for every page of the first 16 MiB**, if it has frames for them. -/
theorem createKernel_hasTable {s : Paging} (held : s.Held) (room : 4097 < s.pmm.freeFrames)
    (page : Nat) (inside : page < 4096) :
    s.createKernel.HasTable s.dirs.length (pdIndex (pageAddress page)) := by
  have left := s.pmm.allocFrame_freeFrames
  unfold createKernel
  refine foldl_hasTable _ (newDirectory_held held (held.balanced.finds (by omega))) ?_ ?_
    (List.mem_range.mpr inside)
  · show s.dirs.length < (s.dirs ++ [s.construct.1]).length
    simp
  · show (List.range 4096).length < s.pmm.allocFrame.2.freeFrames
    rw [List.length_range]
    omega

theorem createKernel_length (s : Paging) : s.createKernel.dirs.length = s.dirs.length + 1 := by
  refine createKernel_of (P := fun t => t.dirs.length = s.dirs.length + 1) ?_
    fun t i same => (mapPage_length ..).trans same
  show (s.dirs ++ [s.construct.1]).length = s.dirs.length + 1
  simp

theorem foldl_freeFrames {α : Type} {turn : Paging → α → Paging}
    (each : ∀ t a, t.pmm.freeFrames ≤ (turn t a).pmm.freeFrames + 1) (list : List α) (s : Paging) :
    s.pmm.freeFrames ≤ (list.foldl turn s).pmm.freeFrames + list.length := by
  induction list generalizing s with
  | nil => exact Nat.le_refl _
  | cons first list ih =>
    have left := each s first
    have rest := ih (turn s first)
    rw [List.foldl_cons, List.length_cons]
    omega

theorem createKernel_freeFrames (s : Paging) : s.pmm.freeFrames ≤ s.createKernel.pmm.freeFrames + 4097 := by
  have left := s.pmm.allocFrame_freeFrames
  have turn (t : Paging) (i : Nat) :=
    mapPage_freeFrames t s.dirs.length (pageAddress i) (pageAddress i) pageKernel
  have rest := foldl_freeFrames turn (List.range 4096) s.newDirectory
  rw [List.length_range, show s.newDirectory.pmm = s.pmm.allocFrame.2 from rfl] at rest
  unfold createKernel
  omega

/-- 32 MiB, all frames free but frame 0. -/
def roomy : Pmm where
  bitmap := fun i => if i = 0 then 1#32 else 0#32
  totalFrames := 8192
  freeFrames := 8191

theorem roomy_clearFrames : roomy.clearFrames = (Finset.range 8192).erase 0 := by
  ext frame
  rw [Pmm.mem_clearFrames, Finset.mem_erase, Finset.mem_range, and_comm]
  refine and_congr_left fun _ => ?_
  rw [Pmm.testBit, Bitmap.test_eq]
  show (if frame / 32 = 0 then 1#32 else 0#32).getLsbD (frame % 32) = false ↔ frame ≠ 0
  split_ifs with low
  · simp
    omega
  · simp
    omega

theorem roomy_balanced : roomy.Balanced := by
  refine ⟨?_, by decide⟩
  rw [roomy_clearFrames, Finset.card_erase_of_mem (by simp), Finset.card_range]
  rfl

theorem roomy_zero : 0 ∉ roomy.clearFrames := by
  rw [roomy_clearFrames]
  exact Finset.notMem_erase 0 _

/-- The booted kernel, with 32 MiB. -/
def booted : Paging := init (fun _ _ => 0#32) roomy

theorem booted_held : booted.Held := init_held _ roomy_balanced roomy_zero (roomy_balanced.finds (by decide))

theorem booted_freeFrames : 4094 ≤ booted.pmm.freeFrames := by
  have left := createKernel_freeFrames { mem := fun _ _ => 0#32, pmm := roomy, dirs := [] }
  have count : roomy.freeFrames = 8191 := rfl
  unfold booted init
  dsimp only at left
  omega

theorem booted_kernel : ∃ kernel, booted.dirs = [kernel] ∧ kernel.pageTables 1 ≠ 0 := by
  have held := empty_held (fun _ _ => 0#32) roomy_balanced roomy_zero
  have length : booted.dirs.length = 1 := by
    unfold booted init
    exact createKernel_length _
  have table : booted.HasTable 0 (pdIndex (pageAddress 1024)) := by
    unfold booted init
    exact createKernel_hasTable held (by decide) 1024 (by decide)
  obtain ⟨kernel, only⟩ := List.length_eq_one_iff.mp length
  obtain ⟨dir, there, some⟩ := table
  rw [only] at there
  cases there
  exact ⟨kernel, only, some⟩

theorem createUser_dirs {s : Paging} {kernel : PageDirectory} (here : s.dirs[0]? = some kernel) :
    s.createUser.dirs = s.dirs ++ [{ physDir := s.pmm.allocFrame.1, pageTables := kernel.pageTables }] := by
  unfold createUser
  rw [here]
  rfl

theorem createUser_freeFrames (s : Paging) : s.pmm.freeFrames ≤ s.createUser.pmm.freeFrames + 1 := by
  unfold createUser
  split
  · exact Nat.le_succ _
  · exact s.pmm.allocFrame_freeFrames

theorem booted_spare : ∀ dir ∈ booted.dirs[0]?, dir.pageTables (pdIndex 0x40000000#32) = 0 := by
  unfold booted init createKernel
  have low : ∀ i ∈ List.range 4096, i < 4096 := fun i => List.mem_range.mp
  generalize List.range 4096 = pages at low ⊢
  refine List.foldlRecOn
    (motive := fun t : Paging => ∀ dir ∈ t.dirs[0]?, dir.pageTables (pdIndex 0x40000000#32) = 0)
    pages _ ?_ fun t null i member dir there => ?_
  · rintro dir ⟨⟩
    rfl
  rcases mapPage_dirs t 0 (pageAddress i) (pageAddress i) pageKernel with same | ⟨-, added⟩
  · exact null dir (same ▸ there)
  · have other : pdIndex 0x40000000#32 ≠ pdIndex (pageAddress i) := by
      have small := low i member
      rw [Ne, Fin.ext_iff]
      unfold pdIndex pageAddress
      simp only [Fin.val_ofNat, BitVec.toNat_ushiftRight, Nat.shiftRight_eq_div_pow, BitVec.toNat_ofNat]
      omega
    rw [Option.mem_def] at there
    change (Paging.dirs _)[0]? = _ at there
    rw [List.length_nil, added, List.getElem?_modify] at there
    obtain ⟨old, here, rfl⟩ := Option.map_eq_some_iff.mp there
    rw [if_pos rfl]
    exact (Function.update_of_ne other _ _).trans (null old here)

/-- The kernel and a user directory; the user directory maps a page where neither has a table. -/
theorem isolated_iff_kernel :
    Always step Isolated booted [.createUser, .mapPage 1 0x40000000#32 0x200000#32 pageKernel] := by
  obtain ⟨kernel, only, -⟩ := booted_kernel
  have zero : booted.dirs[0]? = some kernel := by rw [only]; rfl
  have room := booted_freeFrames
  refine (isolated_iff _ roomy _ roomy_balanced roomy_zero (roomy_balanced.finds (by decide)) ?_).mpr ?_
  · exact ⟨booted_held.balanced.finds (by omega), trivial, trivial⟩
  · have user : booted.createUser.dirs[1]? = some ⟨booted.pmm.allocFrame.1, kernel.pageTables⟩ := by
      rw [createUser_dirs zero, only]
      rfl
    exact ⟨trivial, agreesWithSharers_of_null _ user (booted_spare kernel zero), trivial⟩

/-- **Two user directories share their tables**: what the one maps at `0x00400000` the other sees. -/
theorem user_mapping_shared : ¬ ∀ (mem : Nat → FrameWords) (pmm : Pmm) (ops : List PagingOp),
    pmm.Balanced → 0 ∉ pmm.clearFrames → pmm.clearFrames ≠ ∅ →
    Always step FindsFrame (init mem pmm) ops → Always step Isolated (init mem pmm) ops := by
  intro isolated
  obtain ⟨kernel, only, table⟩ := booted_kernel
  have room := booted_freeFrames
  have first : booted.createUser.Held := createUser_held booted_held (booted_held.balanced.finds (by omega))
  have room' := createUser_freeFrames booted
  have second : booted.createUser.createUser.Held := createUser_held first (first.balanced.finds (by omega))
  have maps (pa : BitVec 32) : booted.createUser.createUser.AgreesWithSharers 1 0x00400000#32
      (pageEntry pa (pageKernel ||| pageUser)) := by
    refine (mapPage_isolated_iff second _ _ _ _).mp ?_
    have run := isolated (fun _ _ => 0#32) roomy
      [.createUser, .createUser, .mapPage 1 0x00400000#32 pa (pageKernel ||| pageUser)]
      roomy_balanced roomy_zero (roomy_balanced.finds (by decide))
      ⟨booted_held.balanced.finds (by omega), first.balanced.finds (by omega), trivial, trivial⟩
    exact run.2.2.1
  have dirs := createUser_dirs (s := booted) (by rw [only]; rfl)
  have dirs' := createUser_dirs (s := booted.createUser) (by rw [dirs, only]; rfl)
  rw [dirs, only] at dirs'
  have here : booted.createUser.createUser.dirs[1]? =
      some ⟨booted.pmm.allocFrame.1, kernel.pageTables⟩ := by rw [dirs']; rfl
  have there : booted.createUser.createUser.dirs[2]? =
      some ⟨booted.createUser.pmm.allocFrame.1, kernel.pageTables⟩ := by rw [dirs']; rfl
  -- the entry that was there would have to read as both of two different mappings
  have one := maps 0x00800000#32 _ here table 2 (by decide) _ there rfl
  have two := maps 0x00900000#32 _ here table 2 (by decide) _ there rfl
  have same := congrArg PageView.physical (one.trans two.symm)
  have physical (va pde pte : BitVec 32) (present : hasFlag pte pagePresent = true) :
      (entryView va pde pte).physical = (pte &&& 0xFFFFF000#32) ||| (va &&& 0xFFF#32) := by
    rw [entryView, if_pos present]
  rw [physical _ _ _ rfl, physical _ _ _ rfl] at same
  revert same
  decide

end Paging

end LaylaOS.Memory
