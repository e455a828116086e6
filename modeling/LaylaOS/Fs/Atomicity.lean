/-
**Which failing calls change the volume.**

`WriteFile` frees the old chain first and does not give back what it has taken when it runs out of
clusters; `MakeDir` keeps the cluster of a directory whose entry finds no place. `Safe` is the exact
condition, on the volume before the call, under which a call that returns false leaves every path
and the free clusters as they were.

* `failure_atomic_iff` — a call is atomic exactly if it is safe.
-/

import LaylaOS.Fs.Names
import LaylaOS.Fs.Paths

namespace LaylaOS.Fs

open LaylaOS.Lib

namespace Image

variable {I J : Image} {D i first : Nat} {name83 : Name} {e : DirEntry} {O : List Nat} {data : List UInt8}

instance (I : Image) (D : Nat) (old : Option DirEntry) (O : List Nat) (data : List UInt8) :
    Decidable (I.HasRoom D old O data) := inferInstanceAs (Decidable (_ ∧ _ ∧ (_ ∨ _ ∨ _)))

/-- Nothing was free, and the data that now fills the clusters of the file, in ascending order, is
the old contents from the first cluster of the file on. -/
def Coincides (I : Image) (e : DirEntry) (data : List UInt8) : Prop :=
  let O := I.chain e.startCluster
  I.freeList = [] ∧ 2 ∉ O ∧
    ((data.take (O.length * I.clusterSize)).drop
      ((O.filter (· < e.startCluster)).length * I.clusterSize)).take e.size = I.contents e

instance (I : Image) (e : DirEntry) (data : List UInt8) : Decidable (I.Coincides e data) :=
  inferInstanceAs (Decidable (_ ∧ _ ∧ _))

/-- A write under a name of the directory `D` succeeds, or changes nothing. -/
def SafeStore (I : Image) (D : Nat) (data : List UInt8) : Option DirEntry → Prop
  | none => I.freeList = [] ∨ I.HasRoom D none [] data
  | some e => e.isDirectory = true ∨ I.HasRoom D (some e) (I.chain e.startCluster) data ∨
      I.Coincides e data

instance (I : Image) (D : Nat) (data : List UInt8) : ∀ old, Decidable (I.SafeStore D data old)
  | none => inferInstanceAs (Decidable (_ ∨ _))
  | some _ => inferInstanceAs (Decidable (_ ∨ _ ∨ _))

/-- A write to a path succeeds, or changes nothing. -/
def SafeWrite (I : Image) (names : List (List UInt8)) (data : List UInt8) : Prop :=
  ∀ target ∈ I.resolveParent I.root names,
    I.SafeStore target.1 data (I.lookup target.1 (toShortName target.2))

instance (I : Image) (names : List (List UInt8)) (data : List UInt8) :
    Decidable (I.SafeWrite names data) :=
  inferInstanceAs (Decidable (∀ target ∈ I.resolveParent I.root names,
    I.SafeStore target.1 data (I.lookup target.1 (toShortName target.2))))

/-- **The calls that do not change the volume when they fail.** -/
def Safe (I : Image) : Call → Prop
  | .writeFile path data _ => I.SafeWrite (parentComponents path) data
  | .createFile path => I.SafeWrite (parentComponents path) []
  | .deleteFile _ => True
  | .makeDir path => ∀ target ∈ I.resolveParent I.root (parentComponents path),
      I.freeList = [] ∨ I.HasDirectoryRoom target.1

instance (I : Image) : ∀ call, Decidable (I.Safe call)
  | .writeFile path data _ => inferInstanceAs (Decidable (I.SafeWrite (parentComponents path) data))
  | .createFile path => inferInstanceAs (Decidable (I.SafeWrite (parentComponents path) []))
  | .deleteFile _ => isTrue trivial
  | .makeDir path => inferInstanceAs (Decidable
      (∀ target ∈ I.resolveParent I.root (parentComponents path),
        I.freeList = [] ∨ I.HasDirectoryRoom target.1))

/-! ### The file whose chain has been overwritten -/

theorem freeList_pairwise (I : Image) : I.freeList.Pairwise (· < ·) :=
  List.Pairwise.filter _ List.pairwise_lt_range

theorem freeList_perm (none : I.freeList = []) (noTwo : 2 ∉ O) (nodup : O.Nodup)
    (inRange : ∀ x ∈ O, x < I.limit ∧ 2 ≤ x) : (I.free O).freeList.Perm O := by
  refine (List.perm_ext_iff_of_nodup (freeList_pairwise _).nodup nodup).mpr fun x => ?_
  rw [mem_freeList]
  constructor
  · rintro ⟨low, high, zero⟩
    by_contra outside
    have free : x ∈ I.freeList := mem_freeList.mpr ⟨low, high, (if_neg outside).symm.trans zero⟩
    rw [none] at free
    exact absurd free List.not_mem_nil
  · intro member
    obtain ⟨high, low⟩ := inRange x member
    have other : x ≠ 2 := fun same => noTwo (same ▸ member)
    exact ⟨by omega, high, if_pos member⟩

theorem filter_lt_eq {before after : List Nat} {start : Nat}
    (ascending : (before ++ start :: after).Pairwise (· < ·)) :
    (before ++ start :: after).filter (· < start) = before := by
  obtain ⟨-, tail, apart⟩ := List.pairwise_append.mp ascending
  have smaller : before.filter (· < start) = before := List.filter_eq_self.mpr fun x member =>
    decide_eq_true (apart x member start List.mem_cons_self)
  have larger : (start :: after).filter (· < start) = [] := by
    refine List.filter_eq_nil_iff.mpr fun x member => ?_
    rcases List.mem_cons.mp member with rfl | later
    · simp
    · have := List.rel_of_pairwise_cons tail later
      simp only [decide_eq_true_eq]
      omega
  rw [List.filter_append, smaller, larger, List.append_nil]

theorem Stored.overwritten {rest : List Nat} (free : (I.free O).freeList = first :: rest)
    (stored : Stored (I.free O) J first rest data)
    (short : (rest.length + 1) * I.clusterSize < data.length) (perm : (I.free O).freeList.Perm O)
    (starts : e.startCluster ∈ O) :
    J.Strict e.startCluster ∧ J.contents e = ((data.take (O.length * I.clusterSize)).drop
      ((O.filter (· < e.startCluster)).length * I.clusterSize)).take e.size := by
  have a := Abandoned.short free stored
  obtain ⟨before, after, split⟩ := List.append_of_mem (perm.mem_iff.mpr starts)
  obtain ⟨strict, chain⟩ := a.chain_of_mem split
  have size : J.clusterSize = I.clusterSize := congrArg Shape.clusterSize a.shape
  have all : ((I.free O).freeList).flatMap J.bytesOf = data.take (O.length * I.clusterSize) := by
    have bytes := stored.bytes
    rw [List.take_of_length_le] at bytes
    · rw [free, bytes, ← perm.length_eq, free]
      rfl
    · rw [flatMap_bytesOf_length, size]
      exact short.le
  have front : (O.filter (· < e.startCluster)).length = before.length := by
    rw [← (perm.filter _).length_eq, split, filter_lt_eq (split ▸ freeList_pairwise _)]
  refine ⟨strict, ?_⟩
  rw [contents, chain, ← all, split, List.flatMap_append, front, ← size,
    List.drop_left' (flatMap_bytesOf_length J before)]

/-! ### Volumes that look the same -/

/-- Every path leads to the same entry and the same bytes, and the free clusters are the same. -/
structure Alike (I J : Image) : Prop where
  sound : J.Sound
  resolve : ∀ names, (∀ n ∈ names, 0 ∉ n) → J.resolve J.root names = I.resolve I.root names
  files : ∀ names e, (∀ n ∈ names, 0 ∉ n) → I.resolve I.root names = some e →
    e.isDirectory = false → J.Readable e ∧ J.contents e = I.contents e
  free : ∀ x, 2 ≤ x → x < I.limit → (J.fat x = 0 ↔ I.fat x = 0)

theorem Regular.alike (regular : I.Regular) : Alike I I := by
  refine ⟨regular.sound, fun _ _ => rfl, fun names e terminated found _ => ?_, fun _ _ _ => Iff.rfl⟩
  obtain ⟨D, j, dir, slot, named⟩ := resolve_slot terminated found
  exact ⟨regular.readable dir slot named, rfl⟩

theorem resolve_congr (shape : J.toShape = I.toShape)
    (same : ∀ D, I.IsDir D → J.slots D = I.slots D) {names : List (List UInt8)}
    (terminated : ∀ n ∈ names, 0 ∉ n) : J.resolve J.root names = I.resolve I.root names := by
  have lookups : ∀ D, I.IsDir D → ∀ n, J.lookup D n = I.lookup D n := by
    intro D dir n
    rw [lookup, lookup, same D dir]
  rw [resolve_eq, resolve_eq, shape, resolveParent_congr (fun D dir name _ => by
    rw [subdirectory, subdirectory, lookups D dir]) .root terminated]
  cases found : I.resolveParent I.root names with
  | none => rfl
  | some target =>
    obtain ⟨D, last⟩ := target
    exact lookups D (resolveParent_isDir .root terminated found).1 _

theorem Abandoned.alike (a : Abandoned I J O first) (regular : I.Regular) (dir : I.IsDir D)
    (vacates : Vacates I D name83 (some e) i O) (none : I.freeList = []) (noTwo : 2 ∉ O)
    (strict : InTable e.startCluster ∧ J.Strict e.startCluster)
    (same : J.contents e = I.contents e) : Alike I J := by
  have sound := regular.sound
  have agrees := a.agrees sound dir vacates
  have w := a.rewrites sound dir vacates
  have fatZero : J.fat 0 = I.fat 0 := by
    rw [a.fatFrame 0 fun member => absurd (mem_freeList.mp member).1 (by decide)]
    exact if_neg fun member => absurd (vacates.inRange sound dir 0 member).2 (by decide)
  refine ⟨w.preserves_sound sound, fun names terminated => ?_, ?_, fun x low high => ?_⟩
  · exact resolve_congr a.shape (fun D' dir' => (agrees.directory sound vacates.file dir').2.2) terminated
  · intro names e' terminated found file
    obtain ⟨D', j, dir', slot', named⟩ := resolve_slot terminated found
    by_cases here : (D', j) = (D, i)
    · cases here
      rw [vacates.slot.1] at slot'
      cases slot'
      exact ⟨.inl strict, same⟩
    · obtain ⟨contents, -, fat⟩ := w.contents_eq sound dir' slot' named file here
      refine ⟨?_, contents⟩
      rcases regular.readable dir' slot' named with ⟨inTable, strict'⟩ | ⟨start, mark, empty⟩
      · exact .inl ⟨inTable, (strict'.chain_congr a.shape fat).1⟩
      · exact .inr ⟨start, fatZero ▸ mark, empty⟩
  · rw [a.zero_iff]
    have given : x ∈ O → x ∈ (I.free O).freeList := by
      intro member
      have other : x ≠ 2 := fun two => noTwo (two ▸ member)
      exact mem_freeList.mpr ⟨by omega, high, if_pos member⟩
    have kept : I.fat x = 0 → x = 2 := by
      intro zero
      by_contra other
      have free : x ∈ I.freeList := mem_freeList.mpr ⟨by omega, high, zero⟩
      rw [none] at free
      exact absurd free List.not_mem_nil
    constructor
    · rintro ⟨zero | member, filled⟩
      · exact zero
      · exact absurd (given member) filled
    · intro zero
      refine ⟨.inl zero, fun filled => ?_⟩
      have := (mem_freeList.mp filled).1
      have := kept zero
      omega

/-- A cluster is free that was not, or the other way round, or the file of a path has other
bytes. -/
def Differs (I J : Image) (names : List (List UInt8)) : Prop :=
  (∃ x, 2 ≤ x ∧ x < I.limit ∧ ¬ (J.fat x = 0 ↔ I.fat x = 0)) ∨
    ∃ e, I.resolve I.root names = some e ∧ J.resolve J.root names = some e ∧
      e.isDirectory = false ∧ J.Readable e ∧ J.contents e ≠ I.contents e

theorem Differs.of_taken {names : List (List UInt8)} {x : Nat} (free : x ∈ I.freeList)
    (taken : J.fat x ≠ 0) : Differs I J names := by
  obtain ⟨low, high, zero⟩ := mem_freeList.mp free
  exact .inl ⟨x, by omega, high, fun iff => taken (iff.mpr zero)⟩

theorem Store.noRoom {old : Option DirEntry} (store : Store I D name83 data old i O J false) :
    ¬ I.HasRoom D old O data := by
  cases store with
  | full noRoom _ => exact noRoom
  | short noRoom _ _ _ => exact noRoom
  | blocked noRoom _ _ _ => exact noRoom

section Overwrite

variable (store : Store I D name83 data (some e) i (I.chain e.startCluster) J false)
  (regular : I.Regular) (dir : I.IsDir D)
  (vacates : Vacates I D name83 (some e) i (I.chain e.startCluster))
include store regular dir vacates

theorem Store.overwrite (none : I.freeList = []) (noTwo : 2 ∉ I.chain e.startCluster) :
    (I.chain e.startCluster = [] ∧ J = I) ∨ ((InTable e.startCluster ∧ J.Strict e.startCluster) ∧
      J.contents e = ((data.take ((I.chain e.startCluster).length * I.clusterSize)).drop
        (((I.chain e.startCluster).filter (· < e.startCluster)).length * I.clusterSize)).take e.size) := by
  have named : e.Named := by cases vacates with | old _ _ named _ => exact named
  have strict := regular.strict _ _ (.entry dir vacates.slot.1 named)
  have perm := freeList_perm none noTwo strict.walk.nodup (vacates.inRange regular.sound dir)
  cases store with
  | full _ full =>
    rw [full] at perm
    have empty := perm.nil_eq.symm
    exact .inl ⟨empty, by rw [empty, free_nil]⟩
  | short _ free short stored =>
    have inTable : InTable e.startCluster := by
      by_contra outside
      rw [free, strict.walk.nil_iff.mpr outside] at perm
      exact absurd perm.eq_nil (List.cons_ne_nil _ _)
    obtain ⟨strict', contents⟩ := stored.overwritten free short perm (strict.walk.start_mem inTable)
    exact .inr ⟨⟨inTable, strict'⟩, contents⟩
  | blocked _ new _ _ => cases new

theorem Store.overwrite_alike (coincides : I.Coincides e data) : Alike I J := by
  obtain ⟨none, noTwo, same⟩ := coincides
  rcases store.overwrite regular dir vacates none noTwo with ⟨-, rfl⟩ | ⟨strict, contents⟩
  · exact regular.alike
  · rcases store.abandoned with ⟨first, a⟩ | ⟨new, -⟩
    · exact a.alike regular dir vacates none noTwo strict (contents.trans same)
    · cases new

theorem Store.overwrite_differs {names : List (List UInt8)}
    (found : I.resolve I.root names = some e) (terminated : ∀ n ∈ names, 0 ∉ n)
    (other : ¬ I.Coincides e data) : Differs I J names := by
  obtain ⟨first, a⟩ : ∃ first, Abandoned I J (I.chain e.startCluster) first := by
    rcases store.abandoned with abandoned | ⟨new, -⟩
    · exact abandoned
    · cases new
  have named : e.Named := by cases vacates with | old _ _ named _ => exact named
  have strict := regular.strict _ _ (.entry dir vacates.slot.1 named)
  by_cases none : I.freeList = []
  · by_cases two : 2 ∈ I.chain e.startCluster
    · obtain ⟨high, linked⟩ := strict.linked 2 two
      have zero : J.fat 2 = 0 := (a.zero_iff 2).mpr
        ⟨.inr two, fun member => absurd (mem_freeList.mp member).1 (by decide)⟩
      exact .inl ⟨2, le_rfl, high, fun iff => by have := iff.mp zero; omega⟩
    · refine .inr ⟨e, found, ?_, vacates.file e vacates.slot.1 named, ?_⟩
      · have agrees := a.agrees regular.sound dir vacates
        rw [resolve_congr a.shape (fun D' dir' =>
          (agrees.directory regular.sound vacates.file dir').2.2) terminated, found]
      · rcases store.overwrite regular dir vacates none two with ⟨empty, rfl⟩ | ⟨strict', contents⟩
        · -- an entry without clusters is empty, so there is nothing to lose
          refine absurd ⟨none, two, ?_⟩ other
          have size : e.size = 0 := by
            have sized := regular.sized D i e dir vacates.slot.1 named
            rw [empty] at sized
            simpa using sized
          simp [contents, size]
        · refine ⟨.inl strict', fun same => other ⟨none, two, ?_⟩⟩
          rw [← contents, same]
  · obtain ⟨x, free⟩ := List.exists_mem_of_ne_nil _ none
    obtain ⟨low, high, zero⟩ := mem_freeList.mp free
    refine .of_taken free fun taken => ((a.zero_iff x).mp taken).2 ?_
    refine mem_freeList.mpr ⟨low, high, ?_⟩
    show (if _ then 0 else I.fat x) = 0
    rw [zero, ite_self]

end Overwrite

theorem Write.alike {names : List (List UInt8)} (write : Write I names data J false)
    (regular : I.Regular) (terminated : ∀ n ∈ names, 0 ∉ n) (safe : I.SafeWrite names data) :
    Alike I J := by
  cases write with
  | unresolved _ => exact regular.alike
  | directory _ _ _ => exact regular.alike
  | @store D i name old O _ _ found entry vacates store =>
    obtain ⟨dir, -⟩ := resolveParent_isDir .root terminated found
    have here := safe (D, name) found
    rw [entry] at here
    cases old with
    | none =>
      have none := here.resolve_right (by cases vacates with | new => exact store.noRoom)
      cases vacates with
      | new =>
        cases store with
        | full _ _ =>
          rw [free_nil]
          exact regular.alike
        | short _ free _ _ =>
          rw [free_nil, none] at free
          cases free
        | blocked _ _ member _ =>
          rw [free_nil, none] at member
          exact absurd member List.not_mem_nil
    | some e =>
      cases vacates with
      | old position slot named file =>
        rcases here with directory | room | coincides
        · rw [file] at directory
          cases directory
        · exact absurd room store.noRoom
        · exact store.overwrite_alike regular dir (.old position slot named file) coincides

/-- **A write that is not safe** fails, and the volume differs. -/
theorem Write.differs {names : List (List UInt8)} {b : Bool} (write : Write I names data J b)
    (regular : I.Regular) (terminated : ∀ n ∈ names, 0 ∉ n) (notSafe : ¬ I.SafeWrite names data) :
    b = false ∧ Differs I J names := by
  unfold SafeWrite at notSafe
  push Not at notSafe
  obtain ⟨⟨D', name'⟩, target, danger⟩ := notSafe
  cases write with
  | unresolved found =>
    rw [found] at target
    cases target
  | directory found entry directory =>
    rw [found] at target
    cases target
    rw [entry] at danger
    exact absurd (.inl directory) danger
  | @store D i name old O _ _ found entry vacates store =>
    rw [found] at target
    cases target
    rw [entry] at danger
    obtain ⟨dir, -⟩ := resolveParent_isDir .root terminated found
    cases b with
    | true =>
      refine absurd ?_ danger
      cases store with
      | done room =>
        cases vacates with
        | new => exact .inr room
        | old _ _ _ _ => exact .inr (.inl room)
    | false =>
      refine ⟨rfl, ?_⟩
      cases vacates with
      | new =>
        have some : I.freeList ≠ [] := fun none => danger (.inl none)
        rcases store.abandoned with ⟨first, a⟩ | ⟨-, first, L, free, starts, staged⟩
        · obtain ⟨x, free⟩ := List.exists_mem_of_ne_nil _ some
          refine .of_taken free fun zero => ((a.zero_iff x).mp zero).2 ?_
          rwa [free_nil]
        · rw [free_nil] at free
          exact .of_taken free fun zero => ((staged.zero_iff first).mp zero).2 starts
      | @old e _ position slot named file =>
        have resolved : I.resolve I.root names = some e := by
          rw [resolve_eq, found]
          exact entry
        exact store.overwrite_differs regular dir (.old position slot named file) resolved
          terminated fun coincides => danger (.inr (.inr coincides))

theorem Make.alike {names : List (List UInt8)} (make : Make I names J false)
    (regular : I.Regular) (safe : ∀ target ∈ I.resolveParent I.root names,
      I.freeList = [] ∨ I.HasDirectoryRoom target.1) : Alike I J := by
  cases make with
  | unresolved _ => exact regular.alike
  | full _ _ => exact regular.alike
  | blocked found free noSlot _ =>
    rcases safe _ found with none | room
    · rw [none] at free
      cases free
    · rcases (hasDirectoryRoom_iff free).mp room with slot | clusters
      · rw [noSlot] at slot
        cases slot
      · exact absurd rfl clusters

theorem Make.differs {names : List (List UInt8)} {b : Bool} (make : Make I names J b)
    (notSafe : ¬ ∀ target ∈ I.resolveParent I.root names,
      I.freeList = [] ∨ I.HasDirectoryRoom target.1) : b = false ∧ Differs I J names := by
  push Not at notSafe
  obtain ⟨target, there, some, noRoom⟩ := notSafe
  cases make with
  | unresolved found =>
    rw [found] at there
    cases there
  | full _ none => exact absurd none some
  | @blocked D first name _ found free _ staged =>
    have member : first ∈ I.freeList := by rw [free]; exact List.mem_cons_self
    exact ⟨rfl, .of_taken member fun zero =>
      ((staged.zero_iff first).mp zero).2 List.mem_cons_self⟩
  | done found free space _ _ _ =>
    rw [found] at there
    cases there
    exact absurd ((hasDirectoryRoom_iff free).mpr space) noRoom

theorem Effect.alike {call : Call} (effect : I.Effect call J false) (regular : I.Regular)
    (safe : I.Safe call) : Alike I J := by
  have terminated := parentComponents_terminated call.path
  cases call with
  | writeFile path data word => exact Write.alike effect regular terminated safe
  | createFile path => exact Write.alike effect regular terminated safe
  | deleteFile path =>
    cases effect with
    | unresolved _ => exact regular.alike
    | missing _ _ => exact regular.alike
    | directory _ _ _ => exact regular.alike
  | makeDir path => exact Make.alike effect regular safe

/-- **A call that is not safe** fails, and the volume differs. -/
theorem Effect.differs {call : Call} {b : Bool} (effect : I.Effect call J b) (regular : I.Regular)
    (notSafe : ¬ I.Safe call) : b = false ∧ Differs I J (parentComponents call.path) := by
  have terminated := parentComponents_terminated call.path
  cases call with
  | writeFile path data word => exact Write.differs effect regular terminated notSafe
  | createFile path => exact Write.differs effect regular terminated notSafe
  | deleteFile path => exact absurd trivial notSafe
  | makeDir path => exact Make.differs effect notSafe

end Image

namespace Volume

open Image

variable {v : Volume} {d d' : Disk} {J : Image}

/-- Every path resolves and reads back as before, and the free clusters are the same. -/
def Unchanged (v : Volume) (d d' : Disk) : Prop :=
  (∀ q : CString, v.resolvePath d' q = v.resolvePath d q ∧ v.readBack d' q = v.readBack d q) ∧
    ∀ c, 2 ≤ c → c < v.maxCluster → (v.nextCluster d' c = 0 ↔ v.nextCluster d c = 0)

/-- If the call returns false, it has changed nothing. -/
def Atomic (v : Volume) (d : Disk) (call : Call) : Prop :=
  ∀ d', v.call d call = some (d', false) → v.Unchanged d d'

theorem WellFormed.unchanged (wf : v.WellFormed d) (r' : v.Represents d' J)
    (alike : Alike (v.image d) J) : v.Unchanged d d' := by
  have r := wf.represents
  have limit : J.limit = (v.image d).limit := by rw [← r'.limit_eq, r.limit_eq]
  refine ⟨fun q => ?_, fun c low high => ?_⟩
  · have terminated := pathComponents_terminated q
    have same := alike.resolve _ terminated
    constructor
    · refine (resolvePath_spec wf.geometry r' alike.sound q).trans ?_
      rw [same]
      exact (resolvePath_spec wf.geometry r wf.regular.sound q).symm
    · have later : v.readBack d' q = some (J.fileAt (pathComponents q)) := by
        refine readBack_spec wf.geometry r' alike.sound q fun e found file => ?_
        rw [same] at found
        exact (alike.files _ e terminated found file).1
      have equal : J.fileAt (pathComponents q) = (v.image d).fileAt (pathComponents q) := by
        rw [fileAt, fileAt, same]
        cases found : (v.image d).resolve (v.image d).root (pathComponents q) with
        | none => rw [Option.bind_none, Option.bind_none]
        | some e =>
          cases file : e.isDirectory with
          | true => simp [file]
          | false => simp [file, (alike.files _ e terminated found file).2]
      exact later.trans ((congrArg some equal).trans (wf.readBack_eq q).symm)
  · rw [r.limit_eq] at high
    rw [r.nextCluster_eq high, r'.nextCluster_eq (limit ▸ high)]
    exact alike.free c low high

theorem WellFormed.not_unchanged (wf : v.WellFormed d) (r' : v.Represents d' J) (sound : J.Sound)
    (path : CString) (differs : Differs (v.image d) J (parentComponents path)) :
    ¬ v.Unchanged d d' := by
  have r := wf.represents
  have limit : J.limit = (v.image d).limit := by rw [← r'.limit_eq, r.limit_eq]
  rintro ⟨paths, free⟩
  rcases differs with ⟨x, low, high, changed⟩ | ⟨e, found, found', file, readable, changed⟩
  · refine changed ?_
    rw [← r.nextCluster_eq high, ← r'.nextCluster_eq (limit ▸ high)]
    exact free x low (r.limit_eq ▸ high)
  · obtain ⟨q, components⟩ := exists_path path
    have later : v.readBack d' q = some (J.fileAt (pathComponents q)) := by
      refine readBack_spec wf.geometry r' sound q fun e' there _ => ?_
      rw [components, resolve_spelled, found'] at there
      cases there
      exact readable
    have same := later.symm.trans ((paths q).2.trans (wf.readBack_eq q))
    rw [components] at same
    simp only [fileAt, resolve_spelled, found, found', Option.bind_some, file,
      Bool.false_eq_true, if_false, Option.some.injEq, Prod.mk.injEq, true_and] at same
    exact changed same

/-- **A call is atomic exactly if it is safe**: it succeeds, or what stops it does so before
anything has changed. -/
theorem failure_atomic_iff (wf : v.WellFormed d) (call : Call) : v.Atomic d call ↔ (v.image d).Safe call := by
  obtain ⟨d', J, b, ran, r', effect⟩ := call_effect wf.geometry wf.represents wf.regular.sound call
  constructor
  · intro atomic
    by_contra notSafe
    obtain ⟨rfl, differs⟩ := effect.differs wf.regular notSafe
    have sound := (effect.unique_iff wf.regular.sound wf.regular.unique).1
    exact wf.not_unchanged r' sound call.path differs (atomic d' ran)
  · intro safe d₁ failed
    rw [ran] at failed
    cases failed
    exact wf.unchanged r' (effect.alike wf.regular safe)

/-- Write the file `A`, two clusters of ones. -/
def onesCall : Call := .writeFile ⟨[65], letter_terminated⟩ (List.replicate 1024 1)
  (List.length_replicate.trans_lt (by decide))

/-- Write six clusters of twos over it; five are free then. -/
def twosCall : Call := .writeFile ⟨[65], letter_terminated⟩ (List.replicate 3072 2)
  (List.length_replicate.trans_lt (by decide))

/-- Deleting a file that is not there fails. -/
theorem failure_atomic_iff_blank :
    let call : Call := .deleteFile ⟨[65], letter_terminated⟩
    ∃ d', sample.call blank call = some (d', false) ∧ sample.Unchanged blank d' := by
  have failed : sample.call blank (.deleteFile ⟨[65], letter_terminated⟩) = some (_, false) :=
    call_after (by decide +kernel)
  exact ⟨_, failed, (failure_atomic_iff blank_wellFormed _).mpr (by decide +kernel) _ failed⟩

/-- **A failed overwrite loses the old file.** -/
theorem failed_write_loses_file : ¬ ∀ (v : Volume) (d : Disk), v.WellFormed d → ∀ (call : Call) (d' : Disk),
      v.call d call = some (d', false) → v.Unchanged d d' := by
  intro claim
  let written := sample.after blank onesCall
  have wf : sample.WellFormed written := sample_wellFormed [2] (by decide +kernel)
  have failed : sample.call written twosCall = some (sample.after written twosCall, false) :=
    call_after (by decide +kernel)
  have same := ((claim sample written wf twosCall _ failed).1 ⟨[65], by decide⟩).2
  have lost : (sample.readBack (sample.after written twosCall) ⟨[65], by decide⟩ ≠
    sample.readBack written ⟨[65], by decide⟩) := by decide +kernel
  exact lost same

end Volume

end LaylaOS.Fs
