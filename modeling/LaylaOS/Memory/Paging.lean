/-
**Page directories** (`memory/paging.cpp`).

Page directories and page tables live in frames of the physical memory manager, which the kernel
reaches at their own addresses. `mem` gives the 1024 words of the frame at an address. The
`PageDirectory` objects are listed in the order of their creation, the first one is `kernel_dir`.
-/

import LaylaOS.Memory.Pmm

namespace LaylaOS.Memory

def pagePresent : BitVec 32 := 0x001#32

def pageWrite : BitVec 32 := 0x002#32

def pageUser : BitVec 32 := 0x004#32

def pageKernel : BitVec 32 := pagePresent ||| pageWrite

/-- `word & flag`, as a condition. -/
def hasFlag (word flag : BitVec 32) : Bool := (word &&& flag) != 0#32

/-- The words of a frame. -/
abbrev FrameWords : Type := Fin 1024 → BitVec 32

/-- `PageDirectory`: the address of its frame and of its page tables, `0` for `nullptr`. -/
structure PageDirectory where
  physDir : Nat
  pageTables : Fin 1024 → Nat

structure Paging where
  mem : Nat → FrameWords
  pmm : Pmm
  dirs : List PageDirectory

/-- `virtual_addr >> 22`. -/
def pdIndex (va : BitVec 32) : Fin 1024 := Fin.ofNat 1024 (va >>> 22).toNat

/-- `(virtual_addr >> 12) & 0x3FF`. -/
def ptIndex (va : BitVec 32) : Fin 1024 := Fin.ofNat 1024 ((va >>> 12) &&& 0x3FF#32).toNat

/-- The entry that `MapPage` writes. -/
def pageEntry (pa flags : BitVec 32) : BitVec 32 := (pa &&& 0xFFFFF000#32) ||| (flags &&& 0xFFF#32)

namespace Paging

/-- `base[i] = word`. -/
def store (s : Paging) (base : Nat) (i : Fin 1024) (word : BitVec 32) : Paging :=
  { s with mem := Function.update s.mem base (Function.update (s.mem base) i word) }

/-- `memzero32(base, 1024)`. -/
def memzero32 (s : Paging) (base : Nat) : Paging :=
  { s with mem := Function.update s.mem base fun _ => 0#32 }

/-- The constructor: the new object and the state it leaves. -/
def construct (s : Paging) : PageDirectory × Paging :=
  let phys := s.pmm.allocFrame.1
  ({ physDir := phys, pageTables := fun _ => 0 },
    { s with pmm := s.pmm.allocFrame.2 }.memzero32 phys)

/-- The end of `GetOrCreatePageTable`: directory `d` gets a table in the frame from `AllocFrame`. -/
def addTable (s : Paging) (d : Nat) (dir : PageDirectory) (pd : Fin 1024) (flags : BitVec 32) : Paging :=
  let phys := s.pmm.allocFrame.1
  let t := ({ s with pmm := s.pmm.allocFrame.2 }.memzero32 phys).store dir.physDir pd
    (BitVec.ofNat 32 phys ||| pagePresent ||| pageWrite ||| (flags &&& pageUser))
  { t with dirs := t.dirs.modify d fun dir =>
      { dir with pageTables := Function.update dir.pageTables pd phys } }

/-- `GetOrCreatePageTable` of directory `d`: the table, `0` for `nullptr`, and the state it leaves. -/
def getOrCreatePageTable (s : Paging) (d : Nat) (dir : PageDirectory) (pd : Fin 1024)
    (flags : BitVec 32) : Nat × Paging :=
  if hasFlag (s.mem dir.physDir pd) pagePresent then
    (dir.pageTables pd,
      if hasFlag flags pageUser then s.store dir.physDir pd (s.mem dir.physDir pd ||| pageUser) else s)
  else if s.pmm.allocFrame.1 = 0 then (0, { s with pmm := s.pmm.allocFrame.2 })
  else (s.pmm.allocFrame.1, s.addTable d dir pd flags)

/-- `MapPage` on directory `d`. -/
def mapPage (s : Paging) (d : Nat) (va pa flags : BitVec 32) : Paging :=
  match s.dirs[d]? with
  | none => s
  | some dir =>
    let table := s.getOrCreatePageTable d dir (pdIndex va) flags
    if table.1 = 0 then table.2 else table.2.store table.1 (ptIndex va) (pageEntry pa flags)

/-- `UnmapPage` on directory `d`. -/
def unmapPage (s : Paging) (d : Nat) (va : BitVec 32) : Paging :=
  match s.dirs[d]? with
  | none => s
  | some dir =>
    if hasFlag (s.mem dir.physDir (pdIndex va)) pagePresent = false then s
    else if dir.pageTables (pdIndex va) = 0 then s
    else s.store (dir.pageTables (pdIndex va)) (ptIndex va) 0#32

/-- `GetPhysical`. -/
def getPhysical (s : Paging) (dir : PageDirectory) (va : BitVec 32) : BitVec 32 :=
  if hasFlag (s.mem dir.physDir (pdIndex va)) pagePresent = false then 0#32
  else if dir.pageTables (pdIndex va) = 0 then 0#32
  else
    let pte := s.mem (dir.pageTables (pdIndex va)) (ptIndex va)
    if hasFlag pte pagePresent = false then 0#32
    else (pte &&& 0xFFFFF000#32) ||| (va &&& 0xFFF#32)

/-- `IsMapped`. -/
def isMapped (s : Paging) (dir : PageDirectory) (va : BitVec 32) : Bool :=
  if hasFlag (s.mem dir.physDir (pdIndex va)) pagePresent = false then false
  else if dir.pageTables (pdIndex va) = 0 then false
  else hasFlag (s.mem (dir.pageTables (pdIndex va)) (ptIndex va)) pagePresent

/-- `new PageDirectory()`, with the object in the list. -/
def newDirectory (s : Paging) : Paging :=
  { s.construct.2 with dirs := s.dirs ++ [s.construct.1] }

/-- The address of a page. -/
def pageAddress (i : Nat) : BitVec 32 := BitVec.ofNat 32 (i * 0x1000)

/-- `CreateKernel`: the first 16 MiB are mapped to themselves. -/
@[irreducible] def createKernel (s : Paging) : Paging :=
  (List.range 4096).foldl
    (fun t i => t.mapPage s.dirs.length (pageAddress i) (pageAddress i) pageKernel) s.newDirectory

/-- `CreateUser`: a copy of the entries and the table pointers of `kernel_dir`. -/
def createUser (s : Paging) : Paging :=
  match s.dirs[0]? with
  | none => s
  | some kernel =>
    let (dir, t) := s.construct
    { t with
      mem := Function.update t.mem dir.physDir (t.mem kernel.physDir)
      dirs := s.dirs ++ [{ dir with pageTables := kernel.pageTables }] }

/-- The table of `kernel_dir` that the destructor of directory `d` compares with, `0` for `nullptr`. -/
def kernelTable (s : Paging) (d : Nat) (i : Fin 1024) : Nat :=
  match s.dirs[0]? with
  | none => 0
  | some kernel => if d ≠ 0 then kernel.pageTables i else 0

/-- The frames that the destructor of directory `d` frees, in their order. -/
def frees (s : Paging) (d : Nat) (dir : PageDirectory) : List Nat :=
  ((List.finRange 1024).filter fun i =>
    dir.pageTables i ≠ 0 ∧ dir.pageTables i ≠ s.kernelTable d i).map dir.pageTables ++ [dir.physDir]

/-- `delete` of directory `d`. -/
def destroy (s : Paging) (d : Nat) : Paging :=
  match s.dirs[d]? with
  | none => s
  | some dir =>
    { s with
      pmm := (s.frees d dir).foldl Pmm.freeFrame s.pmm
      dirs := s.dirs.eraseIdx d }

end Paging

/-- A call on the page directories. -/
inductive PagingOp
  | createKernel
  | createUser
  | mapPage (d : Nat) (va pa flags : BitVec 32)
  | unmapPage (d : Nat) (va : BitVec 32)
  deriving DecidableEq, Repr

namespace Paging

def step (s : Paging) : PagingOp → Paging
  | .createKernel => s.createKernel
  | .createUser => s.createUser
  | .mapPage d va pa flags => s.mapPage d va pa flags
  | .unmapPage d va => s.unmapPage d va

/-- `PagingManager::Init`. -/
def init (mem : Nat → FrameWords) (pmm : Pmm) : Paging :=
  createKernel { mem := mem, pmm := pmm, dirs := [] }

/-! ### Frames of the manager -/

/-- A frame that the manager has given away. -/
def HeldFrame (m : Pmm) (base : Nat) : Prop :=
  base ≠ 0 ∧ base % 4096 = 0 ∧ m.testBit (base / 4096) = true

theorem allocFrame_fresh {m : Pmm} (balanced : m.Balanced) (zero : 0 ∉ m.clearFrames) :
    (m.clearFrames = ∅ ∧ m.allocFrame = (0, m)) ∨ (m.allocFrame.2.Balanced ∧ 0 ∉ m.allocFrame.2.clearFrames ∧
        HeldFrame m.allocFrame.2 m.allocFrame.1 ∧
        ∀ base, HeldFrame m base → HeldFrame m.allocFrame.2 base ∧ base ≠ m.allocFrame.1) := by
  rcases Pmm.allocFrame_cases balanced with full | ⟨frame, clear, -, addr, marks⟩
  · exact .inl full
  · obtain ⟨low, unset⟩ := Pmm.mem_clearFrames.mp clear
    have positive : frame ≠ 0 := fun same => zero (same ▸ clear)
    have kept : ∀ other, m.testBit other = true → m.allocFrame.2.testBit other = true := by
      intro other set
      rw [marks.bits]
      split_ifs
      · rfl
      · exact set
    refine .inr ⟨marks.balanced, fun free => ?_, ?_, fun base held => ⟨⟨held.1, held.2.1, kept _ held.2.2⟩, ?_⟩⟩
    · obtain ⟨inside, unset⟩ := Pmm.mem_clearFrames.mp free
      rw [marks.total] at inside
      rw [marks.bits, if_neg (by simpa using positive.symm)] at unset
      exact zero (Pmm.mem_clearFrames.mpr ⟨inside, unset⟩)
    · refine ⟨by omega, by omega, ?_⟩
      rw [addr, Nat.mul_div_cancel _ (by decide), marks.bits]
      simp
    · intro same
      have set := held.2.2
      rw [same, addr, Nat.mul_div_cancel _ (by decide), unset] at set
      cases set

/-! ### Where directories and tables lie -/

/-- Directories and tables lie in frames of their own, a table is the same for two directories only
at the same index, and an entry is present if its table is there. -/
structure Held (s : Paging) : Prop where
  balanced : s.pmm.Balanced
  zero : 0 ∉ s.pmm.clearFrames
  dirs : ∀ dir ∈ s.dirs, HeldFrame s.pmm dir.physDir
  distinct : (s.dirs.map PageDirectory.physDir).Nodup
  tables : ∀ dir ∈ s.dirs, ∀ i, dir.pageTables i ≠ 0 → HeldFrame s.pmm (dir.pageTables i)
  apart : ∀ dir ∈ s.dirs, ∀ i, ∀ other ∈ s.dirs, dir.pageTables i ≠ other.physDir
  sameIndex : ∀ dir ∈ s.dirs, ∀ other ∈ s.dirs, ∀ i j, dir.pageTables i ≠ 0 →
    dir.pageTables i = other.pageTables j → i = j
  present : ∀ dir ∈ s.dirs, ∀ i, hasFlag (s.mem dir.physDir i) pagePresent = true ↔
    dir.pageTables i ≠ 0

theorem store_mem (s : Paging) (base b : Nat) (i j : Fin 1024) (word : BitVec 32) :
    (s.store base i word).mem b j = if b = base ∧ j = i then word else s.mem b j := by
  unfold store
  by_cases same : b = base
  · subst same
    simp [Function.update_apply]
  · simp [same]

theorem store_mem_other (s : Paging) {base b : Nat} (i : Fin 1024) (word : BitVec 32)
    (other : b ≠ base) : (s.store base i word).mem b = s.mem b :=
  Function.update_of_ne other ..

theorem Held.fresh {s : Paging} (held : s.Held) (found : s.pmm.allocFrame.1 ≠ 0) :
    ∀ base, HeldFrame s.pmm base → base ≠ s.pmm.allocFrame.1 := by
  rcases allocFrame_fresh held.balanced held.zero with ⟨-, none⟩ | ⟨-, -, -, others⟩
  · exact absurd (by rw [none]) found
  · exact fun base held => (others base held).2

theorem Held.index_eq {s : Paging} (held : s.Held) {d e : Nat} {dir other : PageDirectory}
    (here : s.dirs[d]? = some dir) (there : s.dirs[e]? = some other)
    (same : other.physDir = dir.physDir) : e = d := by
  have bound : e < (s.dirs.map PageDirectory.physDir).length := by
    rw [List.length_map]
    exact (List.getElem?_eq_some_iff.mp there).1
  refine (List.getElem?_inj bound held.distinct).mp ?_
  rw [List.getElem?_map, List.getElem?_map, here, there, Option.map_some, Option.map_some, same]

theorem Held.store {s : Paging} (held : s.Held) {base : Nat} {i : Fin 1024} {word : BitVec 32}
    (keeps : ∀ dir ∈ s.dirs, dir.physDir = base →
      hasFlag word pagePresent = hasFlag (s.mem base i) pagePresent) : (s.store base i word).Held where
  balanced := held.balanced
  zero := held.zero
  dirs := held.dirs
  distinct := held.distinct
  tables := held.tables
  apart := held.apart
  sameIndex := held.sameIndex
  present := by
    intro dir member j
    rw [← held.present dir member j, store_mem]
    split_ifs with here
    · rw [keeps dir member here.1, here.1, here.2]
    · rfl

theorem Held.storeTable {s : Paging} (held : s.Held) {dir : PageDirectory} (member : dir ∈ s.dirs)
    (i j : Fin 1024) (word : BitVec 32) : (s.store (dir.pageTables i) j word).Held :=
  held.store fun other there same => absurd same.symm (held.apart dir member i other there)

theorem hasFlag_or (a b flag : BitVec 32) : hasFlag (a ||| b) flag = (hasFlag a flag || hasFlag b flag) := by
  unfold hasFlag
  rw [Bool.eq_iff_iff]
  simp only [bne_iff_ne, Bool.or_eq_true, ne_eq, BitVec.and_or_distrib_right, BitVec.or_eq_zero_iff]
  tauto

theorem addTable_at {s : Paging} {d e : Nat} {dir dir' : PageDirectory} {pd : Fin 1024}
    {flags : BitVec 32} (there : (s.addTable d dir pd flags).dirs[e]? = some dir') :
    ∃ old, s.dirs[e]? = some old ∧ dir'.physDir = old.physDir ∧
      ∀ i, dir'.pageTables i = if e = d ∧ i = pd then s.pmm.allocFrame.1 else old.pageTables i := by
  replace there : (s.dirs.modify d _)[e]? = some dir' := there
  rw [List.getElem?_modify] at there
  obtain ⟨old, before, after⟩ := Option.map_eq_some_iff.mp there
  refine ⟨old, before, ?_⟩
  subst after
  by_cases same : d = e
  · refine ⟨by simp [same], fun i => ?_⟩
    simp [same, Function.update_apply]
  · have back : e ≠ d := fun other => same other.symm
    exact ⟨by simp [same], fun i => by simp [same, back]⟩

theorem addTable_mem {s : Paging} {d : Nat} {dir dir' : PageDirectory} {pd : Fin 1024}
    {flags : BitVec 32} (member : dir' ∈ (s.addTable d dir pd flags).dirs) :
    ∃ e old, s.dirs[e]? = some old ∧ dir'.physDir = old.physDir ∧
      ∀ i, dir'.pageTables i = if e = d ∧ i = pd then s.pmm.allocFrame.1 else old.pageTables i := by
  obtain ⟨e, there⟩ := List.mem_iff_getElem?.mp member
  exact ⟨e, addTable_at there⟩

theorem addTable_self {s : Paging} {d : Nat} {dir : PageDirectory} (pd : Fin 1024)
    (flags : BitVec 32) (here : s.dirs[d]? = some dir) : (s.addTable d dir pd flags).dirs[d]? = some
      { dir with pageTables := Function.update dir.pageTables pd s.pmm.allocFrame.1 } := by
  show (s.dirs.modify d _)[d]? = _
  rw [List.getElem?_modify, here]
  simp

theorem addTable_mem_apply {s : Paging} {d : Nat} {dir : PageDirectory} {pd : Fin 1024}
    {flags : BitVec 32} {base : Nat} (other : base ≠ s.pmm.allocFrame.1) (i : Fin 1024) :
    (s.addTable d dir pd flags).mem base i =
      if base = dir.physDir ∧ i = pd then
        BitVec.ofNat 32 s.pmm.allocFrame.1 ||| pagePresent ||| pageWrite ||| (flags &&& pageUser)
      else s.mem base i := by
  refine (store_mem _ _ _ _ _ _).trans (if_congr Iff.rfl rfl ?_)
  show Function.update s.mem _ _ base i = s.mem base i
  rw [Function.update_of_ne other]

theorem addTable_physDirs (s : Paging) (d : Nat) (dir : PageDirectory) (pd : Fin 1024)
    (flags : BitVec 32) : (s.addTable d dir pd flags).dirs.map PageDirectory.physDir =
      s.dirs.map PageDirectory.physDir := by
  refine List.ext_getElem? fun e => ?_
  show ((s.dirs.modify d _).map PageDirectory.physDir)[e]? = _
  rw [List.getElem?_map, List.getElem?_modify, List.getElem?_map, Option.map_eq_map, Option.map_map]
  refine congrArg (Option.map · _) (funext fun dir => ?_)
  by_cases same : d = e
  · simp [same]
  · simp [same]

/-- **A new table** lies in a frame that no directory and no table has. -/
theorem Held.addTable {s : Paging} (held : s.Held) {d : Nat} {dir : PageDirectory} {pd : Fin 1024}
    (flags : BitVec 32) (here : s.dirs[d]? = some dir) (free : s.pmm.clearFrames ≠ ∅) :
    (s.addTable d dir pd flags).Held := by
  rcases allocFrame_fresh held.balanced held.zero with ⟨full, -⟩ | ⟨balanced, zero, own, fresh⟩
  · exact absurd full free
  · have mem_of {e : Nat} {old : PageDirectory} (there : s.dirs[e]? = some old) : old ∈ s.dirs :=
      List.mem_of_getElem? there
    refine ⟨balanced, zero, ?dirs, ?distinct, ?tables, ?apart, ?sameIndex, ?present⟩
    case dirs =>
      intro dir' member
      obtain ⟨e, old, there, frame, -⟩ := addTable_mem member
      rw [frame]
      exact (fresh _ (held.dirs old (mem_of there))).1
    case distinct =>
      rw [addTable_physDirs]
      exact held.distinct
    case tables =>
      intro dir' member i there'
      obtain ⟨e, old, there, -, tables⟩ := addTable_mem member
      rw [tables] at there' ⊢
      split_ifs at there' ⊢
      · exact own
      · exact (fresh _ (held.tables old (mem_of there) i there')).1
    case apart =>
      intro dir' member i other' member'
      obtain ⟨e, old, there, -, tables⟩ := addTable_mem member
      obtain ⟨e', other, there', frame, -⟩ := addTable_mem member'
      rw [tables, frame]
      split_ifs
      · exact (fresh _ (held.dirs other (mem_of there'))).2.symm
      · exact held.apart old (mem_of there) i other (mem_of there')
    case sameIndex =>
      intro dir' member other' member' i j there' same
      obtain ⟨e, old, there, -, tables⟩ := addTable_mem member
      obtain ⟨e', other, there'', -, tables'⟩ := addTable_mem member'
      rw [tables] at there' same
      rw [tables'] at same
      split_ifs at there' same with first second second
      · rw [first.2, second.2]
      · rw [same] at there'
        exact absurd same.symm (fresh _ (held.tables other (mem_of there'') j there')).2
      · exact absurd same (fresh _ (held.tables old (mem_of there) i there')).2
      · exact held.sameIndex old (mem_of there) other (mem_of there'') i j there' same
    case present =>
      intro dir' member i
      obtain ⟨e, old, there, frame, tables⟩ := addTable_mem member
      have apart := (fresh _ (held.dirs old (mem_of there))).2
      rw [frame, tables, addTable_mem_apply apart]
      by_cases added : e = d ∧ i = pd
      · obtain ⟨rfl, rfl⟩ := added
        cases here.symm.trans there
        rw [if_pos ⟨rfl, rfl⟩, if_pos ⟨rfl, rfl⟩]
        refine iff_of_true ?_ own.1
        rw [hasFlag_or, hasFlag_or, hasFlag_or, show hasFlag pagePresent pagePresent = true from rfl]
        simp
      · rw [if_neg added, if_neg fun both => added ⟨held.index_eq here there both.1, both.2⟩]
        exact held.present old (mem_of there) i

/-- **A new directory** lies in a fresh frame; its tables are none or those of another directory. -/
theorem Held.append {s : Paging} (held : s.Held) (free : s.pmm.clearFrames ≠ ∅) (words : FrameWords)
    (tables : Fin 1024 → Nat) (present : ∀ i, hasFlag (words i) pagePresent = true ↔ tables i ≠ 0)
    (copied : ∀ i, tables i ≠ 0 → ∃ dir ∈ s.dirs, dir.pageTables i = tables i) :
    Held { mem := Function.update s.mem s.pmm.allocFrame.1 words, pmm := s.pmm.allocFrame.2,
           dirs := s.dirs ++ [{ physDir := s.pmm.allocFrame.1, pageTables := tables }] } := by
  rcases allocFrame_fresh held.balanced held.zero with ⟨full, -⟩ | ⟨balanced, zero, own, fresh⟩
  · exact absurd full free
  · have frame_of {dir : PageDirectory}
        (member : dir ∈ s.dirs ++ [{ physDir := s.pmm.allocFrame.1, pageTables := tables }]) :
        HeldFrame s.pmm dir.physDir ∨ dir.physDir = s.pmm.allocFrame.1 := by
      rcases List.mem_append.mp member with old | new
      · exact .inl (held.dirs dir old)
      · exact .inr (by rw [List.mem_singleton.mp new])
    have table_of {dir : PageDirectory}
        (member : dir ∈ s.dirs ++ [{ physDir := s.pmm.allocFrame.1, pageTables := tables }])
        {i : Fin 1024} (there : dir.pageTables i ≠ 0) :
        ∃ old ∈ s.dirs, old.pageTables i = dir.pageTables i := by
      rcases List.mem_append.mp member with old | new
      · exact ⟨dir, old, rfl⟩
      · rw [List.mem_singleton.mp new] at there ⊢
        exact copied i there
    refine ⟨balanced, zero, ?dirs, ?distinct, ?tables, ?apart, ?sameIndex, ?present⟩
    case dirs =>
      intro dir member
      rcases frame_of member with old | new
      · exact (fresh _ old).1
      · rw [new]
        exact own
    case distinct =>
      rw [List.map_append, List.map_singleton, List.nodup_append]
      refine ⟨held.distinct, List.nodup_singleton _, fun frame member frame' same => ?_⟩
      obtain ⟨dir, old, rfl⟩ := List.mem_map.mp member
      rw [List.mem_singleton.mp same]
      exact (fresh _ (held.dirs dir old)).2
    case tables =>
      intro dir member i there
      obtain ⟨old, member', same⟩ := table_of member there
      rw [← same] at there ⊢
      exact (fresh _ (held.tables old member' i there)).1
    case apart =>
      intro dir member i other member'
      by_cases null : dir.pageTables i = 0
      · rw [null]
        rcases frame_of member' with old | new
        · exact old.1.symm
        · rw [new]
          exact own.1.symm
      · obtain ⟨old, there, same⟩ := table_of member null
        rw [← same] at null ⊢
        rcases List.mem_append.mp member' with former | new
        · exact held.apart old there i other former
        · rw [List.mem_singleton.mp new]
          exact (fresh _ (held.tables old there i null)).2
    case sameIndex =>
      intro dir member other member' i j there same
      obtain ⟨old, former, first⟩ := table_of member there
      obtain ⟨old', former', second⟩ := table_of member' (same ▸ there)
      rw [← first] at there
      exact held.sameIndex old former old' former' i j there (by rw [first, second, same])
    case present =>
      intro dir member i
      show hasFlag (Function.update s.mem s.pmm.allocFrame.1 words dir.physDir i) pagePresent = true ↔ _
      rcases List.mem_append.mp member with old | new
      · rw [Function.update_of_ne (fresh _ (held.dirs dir old)).2]
        exact held.present dir old i
      · rw [List.mem_singleton.mp new, Function.update_self]
        exact present i

/-! ### The calls -/

/-- Nothing changes in the other directories and in their tables. -/
def SparesOthers (d : Nat) (s t : Paging) : Prop :=
  ∀ e ≠ d, t.dirs[e]? = s.dirs[e]? ∧ ∀ other ∈ s.dirs[e]?,
    t.mem other.physDir = s.mem other.physDir ∧
      ∀ i, other.pageTables i ≠ 0 → t.mem (other.pageTables i) = s.mem (other.pageTables i)

theorem SparesOthers.refl (d : Nat) (s : Paging) : SparesOthers d s s :=
  fun _ _ => ⟨rfl, fun _ _ => ⟨rfl, fun _ _ => rfl⟩⟩

theorem Held.store_spares {s : Paging} (held : s.Held) {d : Nat} {dir : PageDirectory}
    (pd : Fin 1024) (word : BitVec 32) (here : s.dirs[d]? = some dir) :
    SparesOthers d s (s.store dir.physDir pd word) := by
  refine fun e differs => ⟨rfl, fun other there => ⟨?_, fun i _ => ?_⟩⟩
  · exact store_mem_other s pd word fun same => differs (held.index_eq here there same)
  · exact store_mem_other s pd word
      (held.apart other (List.mem_of_getElem? there) i dir (List.mem_of_getElem? here))

theorem Held.addTable_spares {s : Paging} (held : s.Held) {d : Nat} {dir : PageDirectory}
    (pd : Fin 1024) (flags : BitVec 32) (here : s.dirs[d]? = some dir)
    (free : s.pmm.clearFrames ≠ ∅) : SparesOthers d s (s.addTable d dir pd flags) := by
  rcases allocFrame_fresh held.balanced held.zero with ⟨full, -⟩ | ⟨-, -, -, fresh⟩
  · exact absurd full free
  · intro e differs
    refine ⟨?_, fun other there => ⟨?_, fun i null => ?_⟩⟩
    · show (s.dirs.modify d _)[e]? = s.dirs[e]?
      rw [List.getElem?_modify]
      simp [differs.symm]
    · funext j
      rw [addTable_mem_apply (fresh _ (held.dirs other (List.mem_of_getElem? there))).2,
        if_neg fun both => differs (held.index_eq here there both.1)]
    · funext j
      rw [addTable_mem_apply (fresh _ (held.tables other (List.mem_of_getElem? there) i null)).2,
        if_neg fun both => held.apart other (List.mem_of_getElem? there) i dir
          (List.mem_of_getElem? here) both.1]

/-- **`GetOrCreatePageTable`** touches no other directory. It finds the table, or puts one in a fresh
frame, or finds no frame. -/
theorem getOrCreatePageTable_cases {s : Paging} (held : s.Held) {d : Nat} {dir : PageDirectory}
    (pd : Fin 1024) (flags : BitVec 32) (here : s.dirs[d]? = some dir) {table : Nat} {t : Paging}
    (result : s.getOrCreatePageTable d dir pd flags = (table, t)) :
    t.Held ∧ SparesOthers d s t ∧ (table ≠ 0 → ∃ dir' ∈ t.dirs, dir'.pageTables pd = table) ∧
      (table = dir.pageTables pd ∨ dir.pageTables pd = 0 ∧
        ∀ other ∈ s.dirs, ∀ i, other.pageTables i ≠ 0 → other.pageTables i ≠ table) := by
  have member := List.mem_of_getElem? here
  have null : ¬ hasFlag (s.mem dir.physDir pd) pagePresent = true → dir.pageTables pd = 0 := fun absent =>
    not_not.mp fun there => absent ((held.present dir member pd).mpr there)
  have frames := allocFrame_fresh held.balanced held.zero
  unfold getOrCreatePageTable at result
  split_ifs at result with present user full
  · cases result
    have keeps : hasFlag (s.mem dir.physDir pd ||| pageUser) pagePresent =
        hasFlag (s.mem dir.physDir pd) pagePresent := by
      rw [hasFlag_or, show hasFlag pageUser pagePresent = false from rfl, Bool.or_false]
    exact ⟨held.store fun _ _ _ => keeps, held.store_spares pd _ here, fun _ => ⟨dir, member, rfl⟩, .inl rfl⟩
  · cases result
    exact ⟨held, .refl d _, fun _ => ⟨dir, member, rfl⟩, .inl rfl⟩
  · cases result
    rcases frames with ⟨-, same⟩ | ⟨-, -, own, -⟩
    · rw [same]
      exact ⟨held, .refl d s, fun some => absurd rfl some, .inl (null present).symm⟩
    · exact absurd full own.1
  · cases result
    rcases frames with ⟨-, same⟩ | ⟨-, -, -, fresh⟩
    · exact absurd (by rw [same]) full
    · have free : s.pmm.clearFrames ≠ ∅ := fun none => full (by rw [Pmm.allocFrame_of_none none])
      refine ⟨held.addTable flags here free, held.addTable_spares pd flags here free,
        fun _ => ⟨_, List.mem_of_getElem? (addTable_self pd flags here), Function.update_self ..⟩,
        .inr ⟨null present, fun other there i some => (fresh _ (held.tables other there i some)).2⟩⟩

theorem mapPage_eq {s t : Paging} {d table : Nat} {dir : PageDirectory} {va flags : BitVec 32}
    (pa : BitVec 32) (here : s.dirs[d]? = some dir)
    (result : s.getOrCreatePageTable d dir (pdIndex va) flags = (table, t)) :
    s.mapPage d va pa flags =
      if table = 0 then t else t.store table (ptIndex va) (pageEntry pa flags) := by
  unfold mapPage
  simp only [here, result]

theorem mapPage_held {s : Paging} (held : s.Held) (d : Nat) (va pa flags : BitVec 32) :
    (s.mapPage d va pa flags).Held := by
  cases here : s.dirs[d]? with
  | none =>
    unfold mapPage
    rwa [here]
  | some dir =>
    cases result : s.getOrCreatePageTable d dir (pdIndex va) flags with
    | mk table t =>
      obtain ⟨next, -, found, -⟩ := getOrCreatePageTable_cases held _ flags here result
      rw [mapPage_eq pa here result]
      split_ifs with null
      · exact next
      · obtain ⟨dir', member, rfl⟩ := found null
        exact next.storeTable member _ _ _

theorem unmapPage_held {s : Paging} (held : s.Held) (d : Nat) (va : BitVec 32) : (s.unmapPage d va).Held := by
  unfold unmapPage
  split
  · exact held
  · rename_i dir here
    split_ifs
    · exact held
    · exact held
    · exact held.storeTable (List.mem_of_getElem? here) _ _ _

theorem newDirectory_held {s : Paging} (held : s.Held) (free : s.pmm.clearFrames ≠ ∅) : s.newDirectory.Held :=
  held.append free (fun _ => 0#32) (fun _ => 0) (fun i => by simp [hasFlag]) fun i some => absurd rfl some

theorem createKernel_of {P : Paging → Prop} {s : Paging} (start : P s.newDirectory)
    (keeps : ∀ t i, P t → P (t.mapPage s.dirs.length (pageAddress i) (pageAddress i) pageKernel)) :
    P s.createKernel := by
  unfold createKernel
  generalize List.range 4096 = pages
  exact List.foldlRecOn pages _ start fun t holds i _ => keeps t i holds

theorem createKernel_held {s : Paging} (held : s.Held) (free : s.pmm.clearFrames ≠ ∅) : s.createKernel.Held :=
  createKernel_of (newDirectory_held held free) fun _ _ held => mapPage_held held _ _ _ _

theorem createUser_held {s : Paging} (held : s.Held) (free : s.pmm.clearFrames ≠ ∅) : s.createUser.Held := by
  unfold createUser
  split
  · exact held
  · rename_i kernel here
    have member := List.mem_of_getElem? here
    have copy := held.append free (s.mem kernel.physDir) kernel.pageTables
      (held.present kernel member) fun i _ => ⟨kernel, member, rfl⟩
    rcases allocFrame_fresh held.balanced held.zero with ⟨full, -⟩ | ⟨-, -, -, fresh⟩
    · exact absurd full free
    · have other := (fresh _ (held.dirs kernel member)).2
      simp only [construct, memzero32, Function.update_idem, Function.update_of_ne other]
      exact copy

end Paging

end LaylaOS.Memory
