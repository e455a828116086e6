/-
**Directories as lists of slots.**

The slots of a directory are the entries of the clusters of its chain, in order. On a tidy list of
slots the scans of the driver are searches in it (`findEntryLoop_spec`, `markEntryDeletedLoop_spec`,
`addDirEntryLoop_spec`).
-/

import LaylaOS.Fs.Chains

namespace LaylaOS.Fs

open LaylaOS.Lib

/-! ### Slots -/

/-- A live entry of the given name. -/
def Matches (name83 : Name) (e : DirEntry) : Bool := !e.isDead && namesMatch e name83

/-- No live slot is a long-name entry, and behind a 0x00 slot there are only 0x00 slots. -/
structure Tidy (slots : List DirEntry) : Prop where
  short : ∀ e ∈ slots, e.isDead = false → e.attributes ≠ 0x0F
  ends : slots.Pairwise fun e later => e.first = 0 → later.first = 0

theorem DirEntry.isDead_iff {e : DirEntry} : e.isDead = true ↔ e.first = 0 ∨ e.first = 0xE5 := by
  simp [DirEntry.isDead]

theorem DirEntry.deleted_isDead (e : DirEntry) : e.deleted.isDead = true := DirEntry.isDead_iff.mpr (.inr rfl)

theorem Matches.live {name83 : Name} {e : DirEntry} (found : Matches name83 e = true) :
    e.isDead = false ∧ e.name = name83 := by
  simpa [Matches, namesMatch] using found

theorem entriesOf_length (count : Nat) (buffer : Storage) : (entriesOf count buffer).length = count := by
  simp [entriesOf]

theorem entriesOf_getElem? {count i : Nat} (buffer : Storage) (inside : i < count) :
    (entriesOf count buffer)[i]? = some (entryAt buffer i) := by
  simp [entriesOf, inside]

theorem entriesOf_putEntry (count : Nat) (buffer : Storage) (i : Nat) (e : DirEntry) :
    entriesOf count (putEntry buffer i e) = (entriesOf count buffer).set i e := by
  refine List.ext_getElem? fun j => ?_
  rw [List.getElem?_set, entriesOf_length]
  by_cases inside : j < count
  · rw [entriesOf_getElem? _ inside, entriesOf_getElem? _ inside, entryAt_putEntry]
    by_cases same : i = j
    · rw [if_pos same.symm, if_pos same, if_pos (by omega)]
    · rw [if_neg (Ne.symm same), if_neg same]
  · rw [List.getElem?_eq_none (by rw [entriesOf_length]; omega),
      List.getElem?_eq_none (by rw [entriesOf_length]; omega)]
    by_cases same : i = j
    · rw [if_pos same, if_neg (by omega)]
    · rw [if_neg same]

theorem entriesOf_zeros (count : Nat) : entriesOf count (fun _ => 0) = List.replicate count DirEntry.zero := by
  refine List.eq_replicate_iff.mpr ⟨entriesOf_length .., fun e' member => ?_⟩
  obtain ⟨_, _, same⟩ := List.mem_map.mp member
  exact same.symm

/-- **The scan of one cluster** is the search for the first match, cut off at a 0x00 slot. -/
theorem scan_eq (skips : DirEntry → Bool) (name83 : Name) {slots : List DirEntry} (k : Nat)
    (tidy : Tidy slots) (dead : ∀ e ∈ slots, e.first = 0xE5 → skips e = true)
    (live : ∀ e ∈ slots, e.isDead = false → skips e = false) :
    scan skips name83 slots k =
      match slots.findIdx? (Matches name83) with
      | some i => .hit (k + i)
      | none => if slots.any (·.first == 0) then .stop else .next := by
  induction slots generalizing k with
  | nil => rfl
  | cons e rest ih =>
    have later := ih (k + 1) ⟨fun e' member => tidy.short e' (List.mem_cons_of_mem _ member),
        (List.pairwise_cons.mp tidy.ends).2⟩
      (fun e' member => dead e' (List.mem_cons_of_mem _ member))
      (fun e' member => live e' (List.mem_cons_of_mem _ member))
    have ends := (List.pairwise_cons.mp tidy.ends).1
    rw [scan, List.findIdx?_cons]
    by_cases zero : e.first = 0
    · have none : rest.findIdx? (Matches name83) = none :=
        List.findIdx?_eq_none_iff.mpr fun e' member => by
          simp [Matches, DirEntry.isDead, ends e' member zero]
      have unmatched : Matches name83 e = false := by simp [Matches, DirEntry.isDead, zero]
      rw [if_pos zero, if_neg (by simp [unmatched]), none]
      simp [zero]
    · have onward : scan skips name83 rest (k + 1) =
          match (rest.findIdx? (Matches name83)).map (· + 1) with
          | some i => .hit (k + i)
          | none => if (e :: rest).any (·.first == 0) then .stop else .next := by
        rw [later, List.any_cons, show (e.first == 0) = false by simp [zero], Bool.false_or]
        cases rest.findIdx? (Matches name83) with
        | none => rfl
        | some i => exact congrArg Scan.hit (show k + 1 + i = k + (i + 1) by omega)
      rw [if_neg zero]
      by_cases gone : e.first = 0xE5
      · have unmatched : Matches name83 e = false := by simp [Matches, DirEntry.isDead, gone]
        rw [if_pos (dead e List.mem_cons_self gone), onward, unmatched, if_neg Bool.false_ne_true]
      · have alive : e.isDead = false := by simp [DirEntry.isDead, zero, gone]
        have same : Matches name83 e = namesMatch e name83 := by simp [Matches, alive]
        rw [live e List.mem_cons_self alive, if_neg Bool.false_ne_true, same]
        by_cases named : namesMatch e name83 = true
        · rw [if_pos named, if_pos named]
          rfl
        · rw [if_neg named, if_neg named, onward]

theorem Tidy.of_append {first second : List DirEntry} (tidy : Tidy (first ++ second)) :
    Tidy first ∧ Tidy second ∧ ((first.any (·.first == 0)) = true → ∀ e ∈ second, e.first = 0) := by
  obtain ⟨one, two, across⟩ := List.pairwise_append.mp tidy.ends
  refine ⟨⟨fun e member => tidy.short e (List.mem_append_left _ member), one⟩,
    ⟨fun e member => tidy.short e (List.mem_append_right _ member), two⟩, fun zero e member => ?_⟩
  obtain ⟨stop, inFirst, isZero⟩ := List.any_eq_true.mp zero
  exact across stop inFirst e member (by simpa using isZero)

theorem scan_cases (skips : DirEntry → Bool) (name83 : Name) {here later : List DirEntry}
    (tidy : Tidy (here ++ later)) (dead : ∀ e ∈ here, e.first = 0xE5 → skips e = true)
    (live : ∀ e ∈ here, e.isDead = false → skips e = false) :
    (∃ i < here.length, scan skips name83 here 0 = .hit i ∧
        (here ++ later).findIdx? (Matches name83) = some i) ∨
      (scan skips name83 here 0 = .stop ∧ (here ++ later).findIdx? (Matches name83) = none) ∨
      (scan skips name83 here 0 = .next ∧ (here ++ later).findIdx? (Matches name83) =
        (later.findIdx? (Matches name83)).map (· + here.length)) := by
  obtain ⟨tidyHere, -, zeros⟩ := tidy.of_append
  rw [scan_eq skips name83 0 tidyHere dead live, List.findIdx?_append]
  cases found : here.findIdx? (Matches name83) with
  | some i =>
    obtain ⟨inside, -⟩ := List.findIdx?_eq_some_iff_getElem.mp found
    exact .inl ⟨i, inside, congrArg Scan.hit (Nat.zero_add i), rfl⟩
  | none =>
    by_cases stops : here.any (·.first == 0) = true
    · have none : later.findIdx? (Matches name83) = none :=
        List.findIdx?_eq_none_iff.mpr fun e member => by
          simp [Matches, DirEntry.isDead, zeros stops e member]
      exact .inr (.inl ⟨if_pos stops, by rw [none]; rfl⟩)
    · exact .inr (.inr ⟨if_neg stops, rfl⟩)

/-! ### The slots of a chain -/

namespace Image

variable {I I' : Image}

def perCluster (I : Image) : Nat := I.clusterSize / 32

/-- The slots of the clusters `l`. -/
def slotsOf (I : Image) (l : List Nat) : List DirEntry :=
  l.flatMap fun c => entriesOf I.perCluster (I.data c)

/-- The slots of the directory that starts at `D`. -/
def slots (I : Image) (D : Nat) : List DirEntry := I.slotsOf (I.chain D)

/-- Store an entry in the slot with index `i` of the clusters `l`. -/
def putSlot (I : Image) : List Nat → Nat → DirEntry → Image
  | [], _, _ => I
  | c :: l, i, e =>
    if i < I.perCluster then I.setData c (putEntry (I.data c) i e)
    else putSlot I l (i - I.perCluster) e

/-- Append the cluster `fresh`, with `e` in its first slot, to the chain that ends in `last`. -/
def grow (I : Image) (last fresh : Nat) (e : DirEntry) : Image :=
  ((I.setFat last fresh).setFat fresh 0x0FFFFFFF).setData fresh (putEntry (fun _ => 0) 0 e)

theorem slotsOf_cons (c : Nat) (l : List Nat) :
    I.slotsOf (c :: l) = entriesOf I.perCluster (I.data c) ++ I.slotsOf l := rfl

theorem perCluster_congr (shape : I'.toShape = I.toShape) : I'.perCluster = I.perCluster := by
  unfold perCluster
  rw [shape]

theorem slotsOf_congr {l : List Nat} (shape : I'.toShape = I.toShape)
    (same : ∀ x ∈ l, I'.data x = I.data x) : I'.slotsOf l = I.slotsOf l := by
  unfold slotsOf perCluster
  rw [shape]
  exact List.flatMap_congr fun c member => by rw [same c member]

@[simp] theorem putSlot_toShape (l : List Nat) (i : Nat) (e : DirEntry) :
    (I.putSlot l i e).toShape = I.toShape := by
  induction l generalizing i with
  | nil => rfl
  | cons c l ih =>
    rw [putSlot]
    split
    · rfl
    · exact ih _

@[simp] theorem putSlot_fat (l : List Nat) (i : Nat) (e : DirEntry) : (I.putSlot l i e).fat = I.fat := by
  induction l generalizing i with
  | nil => rfl
  | cons c l ih =>
    rw [putSlot]
    split
    · rfl
    · exact ih _

theorem putSlot_data {l : List Nat} {x : Nat} (outside : x ∉ l) (i : Nat) (e : DirEntry) :
    (I.putSlot l i e).data x = I.data x := by
  induction l generalizing i with
  | nil => rfl
  | cons c l ih =>
    obtain ⟨notHere, notLater⟩ := not_or.mp (mt List.mem_cons.mpr outside)
    rw [putSlot]
    split
    · exact setData_of_ne _ _ notHere
    · exact ih notLater _

theorem slotsOf_putSlot {l : List Nat} (nodup : l.Nodup) (i : Nat) (e : DirEntry) :
    (I.putSlot l i e).slotsOf l = (I.slotsOf l).set i e := by
  induction l generalizing i with
  | nil => rfl
  | cons c l ih =>
    obtain ⟨fresh, nodup⟩ := List.nodup_cons.mp nodup
    rw [slotsOf_cons, slotsOf_cons, List.set_append, entriesOf_length, putSlot]
    by_cases here : i < I.perCluster
    · have others : (I.setData c (putEntry (I.data c) i e)).slotsOf l = I.slotsOf l :=
        slotsOf_congr rfl fun x member =>
          setData_of_ne _ _ fun same : x = c => fresh (same ▸ member)
      rw [if_pos here, if_pos here, others, setData_self, entriesOf_putEntry]
      rfl
    · rw [if_neg here, if_neg here, ← ih nodup, putSlot_data fresh, perCluster_congr (putSlot_toShape l _ e)]

theorem slotsOf_append (l l' : List Nat) : I.slotsOf (l ++ l') = I.slotsOf l ++ I.slotsOf l' :=
  List.flatMap_append

theorem slotsOf_grow {l : List Nat} {last fresh : Nat} (new : fresh ∉ l) (e : DirEntry)
    (room : 0 < I.perCluster) :
    (I.grow last fresh e).slotsOf (l ++ [fresh]) =
      I.slotsOf l ++ e :: List.replicate (I.perCluster - 1) DirEntry.zero := by
  have old : (I.grow last fresh e).slotsOf l = I.slotsOf l :=
    slotsOf_congr rfl fun x member => setData_of_ne _ _ fun same => new (same ▸ member)
  rw [slotsOf_append, old]
  congr 1
  show entriesOf _ ((setData _ fresh _).data fresh) ++ [] = _
  rw [setData_self, List.append_nil, entriesOf_putEntry]
  show (entriesOf I.perCluster fun _ => 0).set 0 e = _
  rw [entriesOf_zeros]
  obtain ⟨count, more⟩ : ∃ count, I.perCluster = count + 1 := ⟨I.perCluster - 1, by omega⟩
  rw [more]
  rfl

/-- The chain `l` from `c` on, as the directory loops follow it: up to a value past the end mark,
without a check for numbers below 2. -/
structure Segment (I : Image) (c : Nat) (l : List Nat) : Prop where
  walk : Walk I.fat InTable c l
  linked : ∀ x ∈ l, x < I.limit ∧ 2 ≤ I.fat x
  low : 2 ≤ c

theorem Segment.ends {c : Nat} (segment : I.Segment c []) : ¬ c < endOfChain :=
  fun inside => segment.walk ⟨segment.low, inside⟩

theorem Segment.uncons {c x : Nat} {l : List Nat} (segment : I.Segment c (x :: l)) :
    x = c ∧ c < endOfChain ∧ c < I.limit ∧ I.Segment (I.fat c) l := by
  obtain ⟨here, entered, later⟩ := segment.walk
  obtain ⟨high, next⟩ := segment.linked x List.mem_cons_self
  rw [here] at high next
  exact ⟨here, entered.2, high, later, fun y member => segment.linked y (List.mem_cons_of_mem _ member), next⟩

end Image

namespace Volume

open Image

variable {v : Volume} {d : Disk} {I : Image}

theorem Represents.entries (r : v.Represents d I) (g : v.Geometry) :
    v.clusterSize / 32 = I.perCluster ∧ v.bufSize / 32 = I.perCluster := by
  rw [g.clusterSize_eq.1, r.clusterSize_eq]
  exact ⟨rfl, rfl⟩

theorem Represents.room (r : v.Represents d I) (g : v.Geometry) : 16 ≤ I.perCluster := by
  have size := g.clusterSize_eq.2.2
  rw [r.clusterSize_eq] at size
  unfold perCluster
  omega

theorem Represents.data_past (r : v.Represents d I) (c : Nat) {k : Nat}
    (past : I.clusterSize ≤ k) : I.data c k = 0 := by
  rw [← r.clusterSize_eq] at past
  rw [← r.image]
  show (if _ then _ else fun _ => 0 : Storage) k = 0
  split
  · exact if_neg (by omega)
  · rfl

theorem Represents.clip_putEntry (r : v.Represents d I) {buffer : Storage} {i : Nat} (e : DirEntry)
    (inside : i < I.perCluster) (past : ∀ k, I.clusterSize ≤ k → buffer k = 0) :
    v.clip (putEntry buffer i e) = putEntry buffer i e := by
  funext k
  unfold clip
  split
  · rfl
  · rename_i stored
    rw [r.clusterSize_eq] at stored
    unfold perCluster at inside
    rw [putEntry, if_neg (by omega), past k (by omega)]

theorem findSkips_live {slots : List DirEntry} (tidy : Tidy slots) :
    ∀ e ∈ slots, e.isDead = false → findSkips e = false := by
  intro e member alive
  have live := alive
  rw [DirEntry.isDead, Bool.or_eq_false_iff] at live
  simp [findSkips, live.2, tidy.short e member alive]

theorem findEntryLoop_spec (g : v.Geometry) (r : v.Represents d I) (name83 : Name) {c fuel : Nat}
    {l : List Nat} (segment : I.Segment c l) (tidy : Tidy (I.slotsOf l)) (enough : l.length < fuel) :
    v.findEntryLoop d name83 fuel c = some ((I.slotsOf l).find? (Matches name83)) := by
  induction l generalizing c fuel with
  | nil =>
    obtain ⟨fuel, rfl⟩ : ∃ more, fuel = more + 1 := ⟨fuel - 1, by omega⟩
    rw [findEntryLoop, if_neg segment.ends]
    rfl
  | cons x l ih =>
    rw [List.length_cons] at enough
    obtain ⟨fuel, rfl⟩ : ∃ more, fuel = more + 1 := ⟨fuel - 1, by omega⟩
    obtain ⟨rfl, inside, high, onward⟩ := segment.uncons
    rw [slotsOf_cons] at tidy ⊢
    have tidyHere := tidy.of_append.1
    rw [findEntryLoop, if_pos inside]
    simp only
    rw [r.readCluster_eq segment.low high, (r.entries g).1, r.nextCluster_eq high]
    rcases scan_cases findSkips name83 tidy (fun e _ gone => by simp [findSkips, gone])
      (findSkips_live tidyHere) with ⟨i, bound, hit, found⟩ | ⟨stop, found⟩ | ⟨next, found⟩
    · rw [entriesOf_length] at bound
      rw [hit, List.find?_eq_bind_findIdx?_getElem?, found, Option.bind_some,
        List.getElem?_append_left (by rw [entriesOf_length]; exact bound),
        entriesOf_getElem? _ bound]
    · rw [stop, List.find?_eq_bind_findIdx?_getElem?, found]
      rfl
    · rw [next, List.find?_eq_bind_findIdx?_getElem?, found,
        ih onward tidy.of_append.2.1 (by omega), List.find?_eq_bind_findIdx?_getElem?]
      cases (I.slotsOf l).findIdx? (Matches name83) with
      | none => rfl
      | some i => simp [List.getElem?_append_right]

/-- **`MarkEntryDeleted` rewrites the first live slot of the name.** -/
theorem markEntryDeletedLoop_spec (g : v.Geometry) (r : v.Represents d I) (name83 : Name)
    {c fuel : Nat} {l : List Nat} (segment : I.Segment c l) (tidy : Tidy (I.slotsOf l))
    (enough : l.length < fuel) {i : Nat} {e : DirEntry}
    (found : (I.slotsOf l).findIdx? (Matches name83) = some i) (slot : (I.slotsOf l)[i]? = some e) :
    ∃ d', v.markEntryDeletedLoop d name83 fuel c = some (d', true) ∧
      v.Represents d' (I.putSlot l i e.deleted) := by
  induction l generalizing c fuel i with
  | nil => exact absurd found (by simp [slotsOf])
  | cons x l ih =>
    rw [List.length_cons] at enough
    obtain ⟨fuel, rfl⟩ : ∃ more, fuel = more + 1 := ⟨fuel - 1, by omega⟩
    obtain ⟨rfl, inside, high, onward⟩ := segment.uncons
    rw [slotsOf_cons] at tidy found slot
    rw [markEntryDeletedLoop, if_pos inside]
    simp only
    rw [r.readCluster_eq segment.low high, (r.entries g).2, r.nextCluster_eq high]
    rcases scan_cases (fun e => e.first == 0xE5) name83 tidy (fun e _ gone => by simp [gone])
      (fun e _ alive => by
        rw [DirEntry.isDead, Bool.or_eq_false_iff] at alive
        exact alive.2) with ⟨j, bound, hit, here⟩ | ⟨stop, here⟩ | ⟨next, here⟩
    · rw [entriesOf_length] at bound
      rw [here, Option.some.injEq] at found
      subst found
      rw [List.getElem?_append_left (by rw [entriesOf_length]; exact bound),
        entriesOf_getElem? _ bound, Option.some.injEq] at slot
      have wrote := r.writeCluster g segment.low high (putEntry (I.data x) j e.deleted)
      rw [r.clip_putEntry _ bound fun k past => r.data_past x past] at wrote
      refine ⟨_, ?_, by rw [putSlot, if_pos bound]; exact wrote⟩
      rw [hit, ← slot]
    · rw [here] at found
      exact absurd found (by simp)
    · rw [here, Option.map_eq_some_iff] at found
      obtain ⟨j, found, rfl⟩ := found
      rw [List.getElem?_append_right (Nat.le_add_left _ _), Nat.add_sub_cancel] at slot
      obtain ⟨d', ran, r'⟩ := ih onward tidy.of_append.2.1 (show l.length < fuel by omega) found slot
      refine ⟨d', by rw [next]; exact ran, ?_⟩
      rw [entriesOf_length, putSlot, if_neg (by omega), Nat.add_sub_cancel]
      exact r'

/-- **`AddDirEntry` takes the first dead slot**; a full directory grows by the first free cluster,
if there is one. -/
theorem addDirEntryLoop_spec (g : v.Geometry) (r : v.Represents d I) (e : DirEntry)
    {prev c fuel : Nat} {l : List Nat} (segment : I.Segment c l) (enough : l.length < fuel)
    (prevHigh : prev < I.limit) :
    (∃ i d', (I.slotsOf l).findIdx? DirEntry.isDead = some i ∧
        v.addDirEntryLoop d e fuel prev c = some (d', true) ∧ v.Represents d' (I.putSlot l i e)) ∨
      ((I.slotsOf l).findIdx? DirEntry.isDead = none ∧ I.freeList = [] ∧
        v.addDirEntryLoop d e fuel prev c = some (d, false)) ∨
      (∃ fresh rest d', (I.slotsOf l).findIdx? DirEntry.isDead = none ∧
        I.freeList = fresh :: rest ∧ v.addDirEntryLoop d e fuel prev c = some (d', true) ∧
        v.Represents d' (I.grow ((prev :: l).getLast (List.cons_ne_nil _ _)) fresh e)) := by
  induction l generalizing prev c fuel with
  | nil =>
    obtain ⟨fuel, rfl⟩ : ∃ more, fuel = more + 1 := ⟨fuel - 1, by omega⟩
    rw [addDirEntryLoop, if_neg segment.ends]
    simp only
    rw [r.allocCluster_eq g]
    cases free : I.freeList with
    | nil => exact .inr (.inl ⟨rfl, rfl, if_pos rfl⟩)
    | cons fresh rest =>
      have isFree : fresh ∈ I.freeList := by rw [free]; exact List.mem_cons_self
      obtain ⟨low, high, -⟩ := mem_freeList.mp isFree
      have limit := r.limit_lt g
      have linked := r.setFATEntry g prevHigh (show fresh < 2 ^ 28 by omega)
      have ended : v.Represents (v.setFATEntry _ fresh 0x0FFFFFFF) _ := linked.setFATEntry g high (by decide)
      have wrote := ended.writeCluster g (by omega) high (putEntry (fun _ => 0) 0 e)
      rw [r.clip_putEntry e (by have := r.room g; omega) fun _ _ => rfl] at wrote
      rw [List.headD_cons, if_neg (by omega)]
      exact .inr (.inr ⟨fresh, rest, _, rfl, rfl, rfl, wrote⟩)
  | cons x l ih =>
    rw [List.length_cons] at enough
    obtain ⟨fuel, rfl⟩ : ∃ more, fuel = more + 1 := ⟨fuel - 1, by omega⟩
    obtain ⟨rfl, inside, high, onward⟩ := segment.uncons
    rw [slotsOf_cons, List.findIdx?_append, addDirEntryLoop, if_pos inside]
    simp only
    rw [r.readCluster_eq segment.low high, (r.entries g).2, r.nextCluster_eq high]
    cases here : (entriesOf I.perCluster (I.data x)).findIdx? DirEntry.isDead with
    | some i =>
      obtain ⟨bound, -⟩ := List.findIdx?_eq_some_iff_getElem.mp here
      rw [entriesOf_length] at bound
      have wrote := r.writeCluster g segment.low high (putEntry (I.data x) i e)
      rw [r.clip_putEntry _ bound fun k past => r.data_past x past] at wrote
      refine .inl ⟨i, _, rfl, rfl, ?_⟩
      rw [putSlot, if_pos bound]
      exact wrote
    | none =>
      rw [Option.none_or]
      rcases ih onward (show l.length < fuel by omega) high with
        ⟨i, d', dead, ran, r'⟩ | ⟨full, empty, ran⟩ | ⟨fresh, rest, d', full, free, ran, r'⟩
      · refine .inl ⟨i + I.perCluster, d', by rw [dead, entriesOf_length]; rfl, ran, ?_⟩
        rw [putSlot, if_neg (by omega), Nat.add_sub_cancel]
        exact r'
      · exact .inr (.inl ⟨by rw [full]; rfl, empty, ran⟩)
      · refine .inr (.inr ⟨fresh, rest, d', by rw [full]; rfl, free, ran, ?_⟩)
        rw [List.getLast_cons (List.cons_ne_nil _ _)]
        exact r'

end Volume

end LaylaOS.Fs
