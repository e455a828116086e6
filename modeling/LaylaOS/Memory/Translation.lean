/-
**Translations of a page directory** (`MapPage`, `UnmapPage`, `GetPhysical`, `IsMapped`).

A directory is a map from pages to table entries, of which a call writes one. For that its own frame and
those of its tables have to lie apart; nothing is asked of the other directories or of the counter of the
frame allocator.

* `made_reads_back` — a translation is that of the last call on its page.
-/

import LaylaOS.Memory.Isolation

namespace LaylaOS.Memory

open LaylaOS.Lib

/-! ### Pages -/

theorem pdIndex_val (va : BitVec 32) : (pdIndex va).val = va.toNat / 0x400000 := by
  have small := va.isLt
  unfold pdIndex
  rw [Fin.val_ofNat, BitVec.toNat_ushiftRight, Nat.shiftRight_eq_div_pow]
  omega

theorem ptIndex_val (va : BitVec 32) : (ptIndex va).val = va.toNat / 0x1000 % 0x400 := by
  unfold ptIndex
  rw [Fin.val_ofNat, BitVec.toNat_and, BitVec.toNat_ushiftRight, Nat.shiftRight_eq_div_pow]
  have mask : ∀ n : Nat, n &&& 0x3FF = n % 0x400 := fun n => Nat.and_two_pow_sub_one_eq_mod n 10
  show (_ &&& 0x3FF) % 1024 = _
  rw [mask]
  omega

theorem samePage_iff (a b : BitVec 32) :
    pdIndex a = pdIndex b ∧ ptIndex a = ptIndex b ↔ a.toNat / 0x1000 = b.toNat / 0x1000 := by
  rw [Fin.ext_iff, Fin.ext_iff, pdIndex_val, pdIndex_val, ptIndex_val, ptIndex_val]
  omega

/-- The indices of a page. -/
def pageOf (va : BitVec 32) : Fin 1024 × Fin 1024 := (pdIndex va, ptIndex va)

theorem pageOf_eq_iff (a b : BitVec 32) : pageOf a = pageOf b ↔ a.toNat / 0x1000 = b.toNat / 0x1000 := by
  rw [← samePage_iff]
  exact Prod.ext_iff

/-! ### Frames from the allocator -/

namespace Pmm

theorem allocFrame_keeps (m : Pmm) : m.allocFrame.2.totalFrames = m.totalFrames ∧
    ∀ frame, m.testBit frame = true → m.allocFrame.2.testBit frame = true := by
  unfold allocFrame
  split
  · exact ⟨rfl, fun _ set => set⟩
  · refine ⟨totalFrames_countDown _, fun frame set => ?_⟩
    rw [testBit, bitmap_countDown]
    refine (testBit_setBit m _ frame).trans ?_
    split_ifs
    · rfl
    · exact set

theorem allocFrame_found {m : Pmm} (small : m.totalFrames < 2 ^ 20) (found : m.allocFrame.1 ≠ 0) :
    ∃ frame, m.testBit frame = false ∧ m.allocFrame.1 = frame * 4096 ∧ m.allocFrame.2.testBit frame = true := by
  unfold allocFrame at found ⊢
  cases first : m.firstFree with
  | none =>
    rw [first] at found
    exact absurd rfl found
  | some frame =>
    obtain ⟨inside, clear⟩ := mem_clearFrames.mp (firstFree_eq_some.mp first).1
    refine ⟨frame, clear, Nat.mod_eq_of_lt (by omega), ?_⟩
    rw [testBit, bitmap_countDown]
    exact (testBit_setBit m frame frame).trans (if_pos rfl)

end Pmm

namespace Paging

theorem HeldFrame.alloc {m : Pmm} {base : Nat} (held : HeldFrame m base) : HeldFrame m.allocFrame.2 base :=
  ⟨held.1, held.2.1, m.allocFrame_keeps.2 _ held.2.2⟩

theorem alloc_heldFrame {m : Pmm} (small : m.totalFrames < 2 ^ 20) (found : m.allocFrame.1 ≠ 0) :
    HeldFrame m.allocFrame.2 m.allocFrame.1 ∧ ∀ base, HeldFrame m base → base ≠ m.allocFrame.1 := by
  obtain ⟨frame, clear, addr, set⟩ := Pmm.allocFrame_found small found
  have number : m.allocFrame.1 / 4096 = frame := by rw [addr, Nat.mul_div_cancel _ (by decide)]
  refine ⟨⟨found, by rw [addr, Nat.mul_mod_left], by rw [number, set]⟩, fun base held same => ?_⟩
  have used := held.2.2
  rw [same, number, clear] at used
  cases used

/-! ### The frames of one directory -/

/-- A directory and its tables lie in frames of their own, and an entry is present if its table is
there. -/
structure Framed (s : Paging) (dir : PageDirectory) : Prop where
  small : s.pmm.totalFrames < 2 ^ 20
  own : HeldFrame s.pmm dir.physDir
  tables : ∀ i, dir.pageTables i ≠ 0 → HeldFrame s.pmm (dir.pageTables i)
  apart : ∀ i, dir.pageTables i ≠ dir.physDir
  distinct : ∀ i j, dir.pageTables i ≠ 0 → dir.pageTables i = dir.pageTables j → i = j
  present : ∀ i, hasFlag (s.mem dir.physDir i) pagePresent = true ↔ dir.pageTables i ≠ 0

variable {s t : Paging} {d : Nat} {dir : PageDirectory} {va pa flags : BitVec 32}

theorem Held.framed (held : s.Held) (member : dir ∈ s.dirs) : s.Framed dir where
  small := held.balanced.small
  own := held.dirs dir member
  tables := held.tables dir member
  apart i := held.apart dir member i dir member
  distinct := held.sameIndex dir member dir member
  present := held.present dir member

theorem Framed.store (framed : s.Framed dir) {base : Nat} {i : Fin 1024} {word : BitVec 32}
    (keeps : dir.physDir = base → hasFlag word pagePresent = hasFlag (s.mem base i) pagePresent) :
    (s.store base i word).Framed dir where
  small := framed.small
  own := framed.own
  tables := framed.tables
  apart := framed.apart
  distinct := framed.distinct
  present := by
    intro j
    rw [← framed.present j, store_mem]
    split_ifs with here
    · rw [keeps here.1, here.1, here.2]
    · rfl

theorem Framed.storeTable (framed : s.Framed dir) (i j : Fin 1024) (word : BitVec 32) :
    (s.store (dir.pageTables i) j word).Framed dir :=
  framed.store fun same => absurd same.symm (framed.apart i)

/-- The directory with a new table. -/
def withTable (s : Paging) (dir : PageDirectory) (pd : Fin 1024) : PageDirectory :=
  { dir with pageTables := Function.update dir.pageTables pd s.pmm.allocFrame.1 }

theorem withTable_self (s : Paging) (dir : PageDirectory) (pd : Fin 1024) :
    (s.withTable dir pd).pageTables pd = s.pmm.allocFrame.1 :=
  Function.update_self ..

theorem withTable_other (s : Paging) (dir : PageDirectory) {pd i : Fin 1024} (other : i ≠ pd) :
    (s.withTable dir pd).pageTables i = dir.pageTables i :=
  Function.update_of_ne other ..

theorem withTable_forall {P : Fin 1024 → Nat → Prop} (pd : Fin 1024) (new : P pd s.pmm.allocFrame.1)
    (others : ∀ i ≠ pd, P i (dir.pageTables i)) (i : Fin 1024) : P i ((s.withTable dir pd).pageTables i) :=
  (Function.forall_update_iff dir.pageTables P).mpr ⟨new, others⟩ i

theorem addTable_mem_new {pd : Fin 1024} (other : dir.physDir ≠ s.pmm.allocFrame.1) (j : Fin 1024) :
    (s.addTable d dir pd flags).mem s.pmm.allocFrame.1 j = 0#32 := by
  refine (congrFun (store_mem_other _ _ _ other.symm) j).trans ?_
  show Function.update s.mem _ _ s.pmm.allocFrame.1 j = 0#32
  rw [Function.update_self]

theorem Framed.addTable_mem_old (framed : s.Framed dir) (found : s.pmm.allocFrame.1 ≠ 0)
    {i : Fin 1024} (some : dir.pageTables i ≠ 0) (pd : Fin 1024) :
    (s.addTable d dir pd flags).mem (dir.pageTables i) = s.mem (dir.pageTables i) := by
  have older := (alloc_heldFrame framed.small found).2 _ (framed.tables i some)
  funext j
  rw [addTable_mem_apply older, if_neg fun both => framed.apart i both.1]

theorem Framed.addTable (framed : s.Framed dir) (found : s.pmm.allocFrame.1 ≠ 0) (pd : Fin 1024) :
    (s.addTable d dir pd flags).Framed (s.withTable dir pd) := by
  obtain ⟨new, fresh⟩ := alloc_heldFrame framed.small found
  refine ⟨?small, framed.own.alloc, ?tables, ?apart, fun i j => ?distinct, ?present⟩
  case small => exact s.pmm.allocFrame_keeps.1.trans_lt framed.small
  case tables =>
    refine withTable_forall (P := fun _ table => table ≠ 0 → HeldFrame s.pmm.allocFrame.2 table) pd
      (fun _ => new) fun i _ some => ?_
    exact (framed.tables i some).alloc
  case apart =>
    exact withTable_forall (P := fun _ table => table ≠ dir.physDir) pd (fresh _ framed.own).symm
      fun i _ => framed.apart i
  case distinct =>
    by_cases same : i = pd
    · subst same
      rw [withTable_self]
      refine withTable_forall (P := fun j table => s.pmm.allocFrame.1 ≠ 0 → s.pmm.allocFrame.1 = table →
        i = j) i (fun _ _ => rfl) (fun j _ some equal => ?_) j
      exact absurd equal.symm (fresh _ (framed.tables j (equal ▸ some)))
    · rw [withTable_other s dir same]
      refine withTable_forall (P := fun j table => dir.pageTables i ≠ 0 → dir.pageTables i = table →
        i = j) pd (fun some equal => ?_) (fun j _ => framed.distinct i j) j
      exact absurd equal (fresh _ (framed.tables i some))
  case present =>
    have words (i : Fin 1024) : (s.addTable d dir pd flags).mem dir.physDir i = _ :=
      addTable_mem_apply (fresh _ framed.own) i
    refine withTable_forall (P := fun i table =>
      hasFlag ((s.addTable d dir pd flags).mem dir.physDir i) pagePresent = true ↔ table ≠ 0) pd
      (iff_of_true ?_ found) fun i other => ?_
    · rw [words, if_pos ⟨rfl, rfl⟩, hasFlag_or, hasFlag_or, hasFlag_or,
        show hasFlag pagePresent pagePresent = true from rfl]
      simp
    · rw [words, if_neg fun both => other both.2]
      exact framed.present i

/-! ### Entries -/

/-- The table entry of a page, `0` where there is no table. -/
def entry (s : Paging) (dir : PageDirectory) (page : Fin 1024 × Fin 1024) : BitVec 32 :=
  if dir.pageTables page.1 = 0 then 0#32 else s.mem (dir.pageTables page.1) page.2

/-- What `GetPhysical` and `IsMapped` make of an entry. -/
def translate (va pte : BitVec 32) : BitVec 32 × Bool :=
  if hasFlag pte pagePresent then ((pte &&& 0xFFFFF000#32) ||| (va &&& 0xFFF#32), true) else (0#32, false)

theorem Framed.translation_eq (framed : s.Framed dir) (va : BitVec 32) :
    (s.getPhysical dir va, s.isMapped dir va) = translate va (s.entry dir (pageOf va)) := by
  unfold getPhysical isMapped translate entry pageOf
  by_cases null : dir.pageTables (pdIndex va) = 0
  · simp [null, hasFlag]
  · have there := (framed.present (pdIndex va)).mpr null
    by_cases mapped : hasFlag (s.mem (dir.pageTables (pdIndex va)) (ptIndex va)) pagePresent
    · simp [there, null, mapped]
    · simp [there, null, mapped]

theorem entry_of_some (page : Fin 1024 × Fin 1024) (some : dir.pageTables page.1 ≠ 0) :
    s.entry dir page = s.mem (dir.pageTables page.1) page.2 :=
  if_neg some

theorem Framed.entry_store_table (framed : s.Framed dir) (page : Fin 1024 × Fin 1024)
    (some : dir.pageTables page.1 ≠ 0) (word : BitVec 32) :
    (s.store (dir.pageTables page.1) page.2 word).entry dir = Function.update (s.entry dir) page word := by
  funext other
  by_cases same : other = page
  · subst same
    rw [Function.update_self, entry_of_some other some, store_mem, if_pos ⟨rfl, rfl⟩]
  · rw [Function.update_of_ne same]
    refine if_congr Iff.rfl rfl ?_
    by_cases null : dir.pageTables other.1 = 0
    · rw [null, store_mem_other _ _ _ some.symm]
    · rw [store_mem, if_neg]
      rintro ⟨table, index⟩
      exact same (Prod.ext (framed.distinct _ _ null table) index)

theorem Framed.entry_store_directory (framed : s.Framed dir) (i : Fin 1024) (word : BitVec 32) :
    (s.store dir.physDir i word).entry dir = s.entry dir := by
  funext page
  refine if_congr Iff.rfl rfl ?_
  rw [store_mem_other _ _ _ (framed.apart page.1)]

theorem Framed.entry_addTable (framed : s.Framed dir) (found : s.pmm.allocFrame.1 ≠ 0) {pd : Fin 1024}
    (null : dir.pageTables pd = 0) (flags : BitVec 32) :
    (s.addTable d dir pd flags).entry (s.withTable dir pd) = s.entry dir := by
  have own := (alloc_heldFrame framed.small found).2 _ framed.own
  funext page
  unfold entry
  by_cases same : page.1 = pd
  · rw [same, withTable_self, null, if_pos rfl, if_neg found, addTable_mem_new own]
  · rw [withTable_other s dir same]
    split_ifs with none
    · rfl
    · rw [framed.addTable_mem_old found none]

/-! ### The calls -/

/-- What `MapPage` leaves in directory `d`: one table entry is written, and at most one directory
entry. -/
structure Enters (s t : Paging) (d : Nat) (dir dir' : PageDirectory) (va pa flags : BitVec 32) : Prop where
  here : t.dirs[d]? = some dir'
  framed : t.Framed dir'
  entries : t.entry dir' = Function.update (s.entry dir) (pageOf va) (pageEntry pa flags)
  some : dir'.pageTables (pdIndex va) ≠ 0
  tables : ∀ i ≠ pdIndex va, dir'.pageTables i = dir.pageTables i
  words : ∀ i ≠ pdIndex va, t.mem dir'.physDir i = s.mem dir.physDir i
  user : hasFlag flags pageUser = true → hasFlag (t.mem dir'.physDir (pdIndex va)) pageUser = true

/-- `MapPage` on directory `d` gets a frame if it needs one. -/
def SuppliesTable (d : Nat) (s : Paging) (va : BitVec 32) : Prop :=
  ∀ dir ∈ s.dirs[d]?, hasFlag (s.mem dir.physDir (pdIndex va)) pagePresent = true ∨
    s.pmm.allocFrame.1 ≠ 0

theorem mapPage_enters_present (framed : s.Framed dir) (here : s.dirs[d]? = some dir)
    (present : hasFlag (s.mem dir.physDir (pdIndex va)) pagePresent = true) :
    Enters s (s.mapPage d va pa flags) d dir dir va pa flags := by
  have some := (framed.present (pdIndex va)).mp present
  -- the directory entry that `GetOrCreatePageTable` leaves
  have opened : ∃ t : Paging, s.getOrCreatePageTable d dir (pdIndex va) flags =
      (dir.pageTables (pdIndex va), t) ∧ t.dirs = s.dirs ∧ t.Framed dir ∧ t.entry dir = s.entry dir ∧
      (∀ i ≠ pdIndex va, t.mem dir.physDir i = s.mem dir.physDir i) ∧
      (hasFlag flags pageUser = true → hasFlag (t.mem dir.physDir (pdIndex va)) pageUser = true) := by
    unfold getOrCreatePageTable
    rw [if_pos present]
    split_ifs with user
    · have keeps : hasFlag (s.mem dir.physDir (pdIndex va) ||| pageUser) pagePresent =
          hasFlag (s.mem dir.physDir (pdIndex va)) pagePresent := by
        rw [hasFlag_or, show hasFlag pageUser pagePresent = false from rfl, Bool.or_false]
      refine ⟨_, rfl, rfl, framed.store fun _ => keeps, framed.entry_store_directory _ _,
        fun i other => ?_, fun _ => ?_⟩
      · rw [store_mem, if_neg fun both => other both.2]
      · rw [store_mem, if_pos ⟨rfl, rfl⟩, hasFlag_or, show hasFlag pageUser pageUser = true from rfl,
          Bool.or_true]
    · exact ⟨s, rfl, rfl, framed, rfl, fun _ _ => rfl, fun yes => absurd yes user⟩
  obtain ⟨t, result, dirs, framed', entries, words, user⟩ := opened
  have frame : ∀ word, (t.store (dir.pageTables (pdIndex va)) (ptIndex va) word).mem dir.physDir =
      t.mem dir.physDir := fun word => store_mem_other _ _ _ (framed.apart _).symm
  rw [mapPage_eq pa here result, if_neg some]
  refine ⟨(congrArg (·[d]?) dirs).trans here, framed'.storeTable _ _ _, ?_, some, fun _ _ => rfl,
    fun i other => ?_, fun yes => ?_⟩
  · rw [← entries]
    exact framed'.entry_store_table (pageOf va) some _
  · rw [frame, words i other]
  · rw [frame, user yes]

theorem mapPage_enters_new (framed : s.Framed dir) (here : s.dirs[d]? = some dir)
    (absent : ¬ hasFlag (s.mem dir.physDir (pdIndex va)) pagePresent = true)
    (found : s.pmm.allocFrame.1 ≠ 0) :
    Enters s (s.mapPage d va pa flags) d dir (s.withTable dir (pdIndex va)) va pa flags := by
  have null : dir.pageTables (pdIndex va) = 0 := not_not.mp fun some => absent ((framed.present _).mpr some)
  have own := (alloc_heldFrame framed.small found).2 _ framed.own
  have next : (s.addTable d dir (pdIndex va) flags).Framed (s.withTable dir (pdIndex va)) :=
    framed.addTable found _
  have result : s.getOrCreatePageTable d dir (pdIndex va) flags =
      (s.pmm.allocFrame.1, s.addTable d dir (pdIndex va) flags) := by
    unfold getOrCreatePageTable
    rw [if_neg absent, if_neg found]
  have some : (s.withTable dir (pdIndex va)).pageTables (pdIndex va) ≠ 0 := by
    rwa [withTable_self]
  rw [mapPage_eq pa here result, if_neg found]
  refine ⟨addTable_self (pdIndex va) flags here, ?_, ?_, some, fun i => withTable_other s dir,
    fun i other => ?_, fun user => ?_⟩
  · rw [← withTable_self s dir (pdIndex va)]
    exact next.storeTable _ _ _
  · rw [← framed.entry_addTable (d := d) found null flags, ← withTable_self s dir (pdIndex va)]
    exact next.entry_store_table (pageOf va) some _
  · show (Paging.store _ _ _ _).mem dir.physDir i = _
    rw [store_mem_other _ _ _ own, addTable_mem_apply own, if_neg fun both => other both.2]
  · show hasFlag ((Paging.store _ _ _ _).mem dir.physDir (pdIndex va)) pageUser = true
    rw [store_mem_other _ _ _ own, addTable_mem_apply own, if_pos ⟨rfl, rfl⟩, hasFlag_or]
    have kept : hasFlag (flags &&& pageUser) pageUser = hasFlag flags pageUser := by
      unfold hasFlag
      rw [BitVec.and_assoc, BitVec.and_self]
    rw [kept, user, Bool.or_true]

theorem mapPage_enters (framed : s.Framed dir) (here : s.dirs[d]? = some dir)
    (supplied : SuppliesTable d s va) (pa flags : BitVec 32) :
    ∃ dir', Enters s (s.mapPage d va pa flags) d dir dir' va pa flags := by
  by_cases present : hasFlag (s.mem dir.physDir (pdIndex va)) pagePresent = true
  · exact ⟨_, mapPage_enters_present framed here present⟩
  · exact ⟨_, mapPage_enters_new framed here present ((supplied dir here).resolve_left present)⟩

theorem Framed.mapPage (framed : s.Framed dir) (here : s.dirs[d]? = some dir) (va pa flags : BitVec 32) :
    ∃ dir', (s.mapPage d va pa flags).dirs[d]? = some dir' ∧ (s.mapPage d va pa flags).Framed dir' := by
  by_cases supplied : SuppliesTable d s va
  · obtain ⟨dir', enters⟩ := mapPage_enters framed here supplied pa flags
    exact ⟨dir', enters.here, enters.framed⟩
  · have fails : ¬ hasFlag (s.mem dir.physDir (pdIndex va)) pagePresent = true ∧ s.pmm.allocFrame.1 = 0 := by
      simp only [SuppliesTable, here, Option.mem_def, Option.some.injEq, forall_eq'] at supplied
      rwa [not_or, not_not] at supplied
    have result : s.getOrCreatePageTable d dir (pdIndex va) flags =
        (0, { s with pmm := s.pmm.allocFrame.2 }) := by
      unfold getOrCreatePageTable
      rw [if_neg fails.1, if_pos fails.2]
    rw [mapPage_eq pa here result, if_pos rfl]
    exact ⟨dir, here, s.pmm.allocFrame_keeps.1.trans_lt framed.small, framed.own.alloc,
      fun i some => (framed.tables i some).alloc, framed.apart, framed.distinct, framed.present⟩

theorem unmapPage_entry (framed : s.Framed dir) (here : s.dirs[d]? = some dir) (va : BitVec 32) :
    (s.unmapPage d va).dirs[d]? = some dir ∧ (s.unmapPage d va).Framed dir ∧
      (s.unmapPage d va).entry dir = Function.update (s.entry dir) (pageOf va) 0#32 := by
  unfold unmapPage
  rw [here]
  dsimp only
  by_cases null : dir.pageTables (pdIndex va) = 0
  · have none : s.entry dir (pageOf va) = 0#32 := if_pos null
    rw [if_pos null, ite_self, ← none, Function.update_eq_self]
    exact ⟨here, framed, rfl⟩
  · rw [(framed.present (pdIndex va)).mpr null, if_neg (by decide), if_neg null]
    exact ⟨here, framed.storeTable _ _ _, framed.entry_store_table (pageOf va) null _⟩

/-! ### Directories that are made and used -/

/-- Directory `d` of `s` is directory `e` of `t`, with the same entries, and its frames are held still.
The entries in its tables may have changed: a table can be another directory's as well. -/
structure Undisturbed (s : Paging) (d : Nat) (t : Paging) (e : Nat) : Prop where
  dirs : t.dirs[e]? = s.dirs[d]?
  total : t.pmm.totalFrames = s.pmm.totalFrames
  words : ∀ dir ∈ s.dirs[d]?, t.mem dir.physDir = s.mem dir.physDir
  own : ∀ dir ∈ s.dirs[d]?, HeldFrame s.pmm dir.physDir → HeldFrame t.pmm dir.physDir
  tables : ∀ dir ∈ s.dirs[d]?, ∀ i, HeldFrame s.pmm (dir.pageTables i) → HeldFrame t.pmm (dir.pageTables i)

/-- Directory `d` comes from `CreateKernel` or `CreateUser`, whose `AllocFrame` has found a frame, with
`MapPage` and `UnmapPage` on it and other events in between. `mem_size` is a 32-bit number, so there are
fewer than `2 ^ 20` frames. -/
inductive Made : Paging → Nat → Prop
  | createKernel {s : Paging} : s.pmm.totalFrames < 2 ^ 20 → s.pmm.allocFrame.1 ≠ 0 →
      Made s.createKernel s.dirs.length
  | createUser {s : Paging} : Made s 0 → s.pmm.allocFrame.1 ≠ 0 → Made s.createUser s.dirs.length
  | mapPage {s : Paging} {d : Nat} (va pa flags : BitVec 32) : Made s d → Made (s.mapPage d va pa flags) d
  | unmapPage {s : Paging} {d : Nat} (va : BitVec 32) : Made s d → Made (s.unmapPage d va) d
  | elsewhere {s t : Paging} {d e : Nat} : Made s d → Undisturbed s d t e → Made t e

theorem newDirectory_framed (small : s.pmm.totalFrames < 2 ^ 20) (found : s.pmm.allocFrame.1 ≠ 0) :
    s.newDirectory.Framed s.construct.1 := by
  obtain ⟨new, -⟩ := alloc_heldFrame small found
  refine ⟨s.pmm.allocFrame_keeps.1.trans_lt small, new, fun i some => absurd rfl some,
    fun i => found.symm, fun i j some => absurd rfl some, fun i => ?_⟩
  show hasFlag (Function.update s.mem s.pmm.allocFrame.1 _ s.pmm.allocFrame.1 i) pagePresent = true ↔ _
  rw [Function.update_self]
  exact iff_of_false (by simp [hasFlag]) (not_not.mpr rfl)

theorem createKernel_framed (small : s.pmm.totalFrames < 2 ^ 20) (found : s.pmm.allocFrame.1 ≠ 0) :
    ∃ dir, s.createKernel.dirs[s.dirs.length]? = some dir ∧ s.createKernel.Framed dir := by
  refine createKernel_of (P := fun t => ∃ dir, t.dirs[s.dirs.length]? = some dir ∧ t.Framed dir) ?_ ?_
  · exact ⟨_, List.getElem?_concat_length, newDirectory_framed small found⟩
  · rintro t i ⟨dir, here, framed⟩
    exact framed.mapPage here _ _ _

theorem createUser_mem (zero : s.dirs[0]? = some dir) (other : dir.physDir ≠ s.pmm.allocFrame.1) :
    s.createUser.mem = Function.update s.mem s.pmm.allocFrame.1 (s.mem dir.physDir) := by
  unfold createUser
  rw [zero]
  show Function.update (Function.update s.mem s.pmm.allocFrame.1 _) s.pmm.allocFrame.1
    (Function.update s.mem s.pmm.allocFrame.1 _ dir.physDir) = _
  rw [Function.update_idem, Function.update_of_ne other]

theorem createUser_pmm (zero : s.dirs[0]? = some dir) : s.createUser.pmm = s.pmm.allocFrame.2 := by
  unfold createUser
  rw [zero]
  rfl

theorem Framed.createUser (framed : s.Framed dir) (zero : s.dirs[0]? = some dir)
    (found : s.pmm.allocFrame.1 ≠ 0) :
    s.createUser.Framed ⟨s.pmm.allocFrame.1, dir.pageTables⟩ := by
  obtain ⟨new, fresh⟩ := alloc_heldFrame framed.small found
  have pmm := createUser_pmm zero
  refine ⟨?_, pmm ▸ new, fun i some => pmm ▸ (framed.tables i some).alloc, fun i => ?_, framed.distinct,
    fun i => ?_⟩
  · rw [pmm]
    exact s.pmm.allocFrame_keeps.1.trans_lt framed.small
  · by_cases null : dir.pageTables i = 0
    · exact null.trans_ne found.symm
    · exact fresh _ (framed.tables i null)
  · rw [createUser_mem zero (fresh _ framed.own)]
    show hasFlag (Function.update s.mem _ _ s.pmm.allocFrame.1 i) pagePresent = true ↔ _
    rw [Function.update_self]
    exact framed.present i

theorem Undisturbed.framed {e : Nat} (undisturbed : Undisturbed s d t e) (framed : s.Framed dir)
    (here : s.dirs[d]? = some dir) : t.Framed dir := by
  refine ⟨undisturbed.total.trans_lt framed.small, undisturbed.own dir here framed.own,
    fun i some => undisturbed.tables dir here i (framed.tables i some), framed.apart, framed.distinct,
    fun i => ?_⟩
  rw [undisturbed.words dir here]
  exact framed.present i

theorem Made.framed (made : Made s d) : ∃ dir, s.dirs[d]? = some dir ∧ s.Framed dir := by
  induction made with
  | createKernel small found => exact createKernel_framed small found
  | createUser _ found ih =>
    obtain ⟨kernel, zero, framed⟩ := ih
    refine ⟨_, ?_, framed.createUser zero found⟩
    rw [createUser_dirs zero, List.getElem?_concat_length]
  | mapPage va pa flags _ ih =>
    obtain ⟨dir, here, framed⟩ := ih
    exact framed.mapPage here va pa flags
  | unmapPage va _ ih =>
    obtain ⟨dir, here, framed⟩ := ih
    obtain ⟨there, next, -⟩ := unmapPage_entry framed here va
    exact ⟨dir, there, next⟩
  | elsewhere _ undisturbed ih =>
    obtain ⟨dir, here, framed⟩ := ih
    exact ⟨dir, undisturbed.dirs.trans here, undisturbed.framed framed here⟩

/-! ### Read over write -/

/-- `GetPhysical` and `IsMapped` of directory `d`. -/
def translation (s : Paging) (d : Nat) (va : BitVec 32) : Option (BitVec 32 × Bool) :=
  s.dirs[d]?.map fun dir => (s.getPhysical dir va, s.isMapped dir va)

theorem Framed.translation (framed : s.Framed dir) (here : s.dirs[d]? = some dir) (va : BitVec 32) :
    s.translation d va = some (translate va (s.entry dir (pageOf va))) := by
  unfold Paging.translation
  rw [here, Option.map_some, framed.translation_eq]

theorem translation_update {dir' : PageDirectory} {word : BitVec 32} (framed : s.Framed dir)
    (here : s.dirs[d]? = some dir) (next : t.Framed dir') (there : t.dirs[d]? = some dir')
    (written : t.entry dir' = Function.update (s.entry dir) (pageOf va) word) (va' : BitVec 32) :
    t.translation d va' = if va'.toNat / 0x1000 = va.toNat / 0x1000 then some (translate va' word)
      else s.translation d va' := by
  rw [next.translation there, framed.translation here, written]
  split_ifs with same
  · rw [(pageOf_eq_iff va' va).mpr same, Function.update_self]
  · rw [Function.update_of_ne fun equal => same ((pageOf_eq_iff va' va).mp equal)]

theorem hasFlag_pageEntry (pa flags : BitVec 32) :
    hasFlag (pageEntry pa flags) pagePresent = hasFlag flags pagePresent := by
  unfold pageEntry
  rw [hasFlag_or]
  unfold hasFlag
  rw [BitVec.and_assoc, BitVec.and_assoc, show 0xFFFFF000#32 &&& pagePresent = 0#32 from rfl,
    show 0xFFF#32 &&& pagePresent = pagePresent from rfl, BitVec.and_zero, bne_self_eq_false,
    Bool.false_or]

theorem translate_pageEntry (va pa : BitVec 32) (present : hasFlag flags pagePresent = true) :
    translate va (pageEntry pa flags) = ((pa &&& 0xFFFFF000#32) ||| (va &&& 0xFFF#32), true) := by
  have frame : pageEntry pa flags &&& 0xFFFFF000#32 = pa &&& 0xFFFFF000#32 := by
    unfold pageEntry
    rw [BitVec.and_or_distrib_right, BitVec.and_assoc, BitVec.and_assoc,
      show 0xFFFFF000#32 &&& 0xFFFFF000#32 = 0xFFFFF000#32 from rfl,
      show 0xFFF#32 &&& 0xFFFFF000#32 = 0#32 from rfl, BitVec.and_zero, BitVec.or_zero]
  rw [translate, hasFlag_pageEntry, if_pos present, frame]

/-- **Read over write.** In a directory that has been made and used, a `MapPage` that gets the frame it
needs gives its page that translation and an `UnmapPage` takes it away; all other pages keep theirs. -/
theorem made_reads_back (made : Made s d) :
    (∀ va pa flags : BitVec 32, SuppliesTable d s va → hasFlag flags pagePresent = true →
      ∀ va' : BitVec 32, (s.mapPage d va pa flags).translation d va' =
        if va'.toNat / 0x1000 = va.toNat / 0x1000
        then some ((pa &&& 0xFFFFF000#32) ||| (va' &&& 0xFFF#32), true) else s.translation d va') ∧
      ∀ va va' : BitVec 32, (s.unmapPage d va).translation d va' =
        if va'.toNat / 0x1000 = va.toNat / 0x1000 then some (0#32, false) else s.translation d va' := by
  obtain ⟨dir, here, framed⟩ := made.framed
  refine ⟨fun va pa flags supplied present va' => ?_, fun va va' => ?_⟩
  · obtain ⟨dir', enters⟩ := mapPage_enters framed here supplied pa flags
    rw [translation_update framed here enters.framed enters.here enters.entries,
      translate_pageEntry va' pa present]
  · obtain ⟨there, next, written⟩ := unmapPage_entry framed here va
    rw [translation_update framed here next there written]
    rfl

theorem booted_reads_back :
    (booted.mapPage 0 0x40000000#32 0x00200ABC#32 pageKernel).translation 0 0x40000123#32 =
      some (0x00200123#32, true) := by
  have room := booted_freeFrames
  have made : Made booted 0 := by
    rw [booted, init]
    exact .createKernel (s := ⟨fun _ _ => 0#32, roomy, []⟩) roomy_balanced.small
      (Pmm.alloc_ne_zero roomy_balanced roomy_zero (roomy_balanced.finds (by decide)))
  have supplied : SuppliesTable 0 booted 0x40000000#32 := fun _ _ =>
    .inr (Pmm.alloc_ne_zero booted_held.balanced booted_held.zero (booted_held.balanced.finds (by omega)))
  rw [(made_reads_back made).1 _ _ _ supplied rfl, if_pos (by decide)]
  rfl

end Paging

end LaylaOS.Memory
