/-
**The abstract volume: a FAT function and the contents of the clusters.**

`Volume.image` forgets where FAT sectors and clusters lie on the drive. On a volume whose regions
do not overlap (`Geometry`) the writing primitives of the driver are exactly the updates of the
image, and `AllocCluster` is the search for its first free cluster.
-/

import LaylaOS.Fs.Fat32
import LaylaOS.Lib.Bitmap

namespace LaylaOS.Fs

open LaylaOS.Lib

/-- What no operation changes: the first cluster of the root directory, the end of the cluster
numbers, and the bytes of a cluster. -/
structure Shape where
  root : Nat
  limit : Nat
  clusterSize : Nat

/-- A volume as its users see it: a successor for each cluster, and its bytes. -/
@[ext]
structure Image extends Shape where
  fat : Nat → Nat
  data : Nat → Storage

namespace Image

def setFat (I : Image) (cluster value : Nat) : Image :=
  { I with fat := fun c => if c = cluster then value else I.fat c }

def setData (I : Image) (cluster : Nat) (bytes : Storage) : Image :=
  { I with data := fun c => if c = cluster then bytes else I.data c }

section Updates

variable (I : Image) (cluster value : Nat) (bytes : Storage)

@[simp] theorem setFat_toShape : (I.setFat cluster value).toShape = I.toShape := rfl

@[simp] theorem setFat_data : (I.setFat cluster value).data = I.data := rfl

@[simp] theorem setFat_self : (I.setFat cluster value).fat cluster = value := if_pos rfl

@[simp] theorem setData_toShape : (I.setData cluster bytes).toShape = I.toShape := rfl

@[simp] theorem setData_fat : (I.setData cluster bytes).fat = I.fat := rfl

@[simp] theorem setData_self : (I.setData cluster bytes).data cluster = bytes := if_pos rfl

variable {cluster} {x : Nat} (other : x ≠ cluster)
include other

theorem setFat_of_ne : (I.setFat cluster value).fat x = I.fat x := if_neg other

theorem setData_of_ne : (I.setData cluster bytes).data x = I.data x := if_neg other

end Updates

/-- The free clusters `AllocCluster` may return, in the order it meets them. -/
def freeList (I : Image) : List Nat :=
  (List.range I.limit).filter fun c => decide (3 ≤ c) && decide (I.fat c = 0)

end Image

namespace Volume

/-- What `WriteCluster` stores of a buffer. -/
def clip (v : Volume) (buffer : Storage) : Storage := fun k =>
  if k < v.clusterSize then buffer k else 0

/-- The volume on the drive. -/
def image (v : Volume) (d : Disk) : Image where
  root := v.bpb.rootCluster
  limit := v.maxCluster
  clusterSize := v.clusterSize
  fat c := if c < v.maxCluster then v.nextCluster d c else 0
  data c := if 2 ≤ c ∧ c < v.maxCluster then v.readCluster d c else fun _ => 0

/-- The placement of a volume on which no two regions overlap: 512-byte sectors, one to eight of them
a cluster, one or two FAT copies that have an entry for every cluster, and FAT copies and clusters at
different 28-bit LBAs. -/
structure Placement (v : Volume) : Prop where
  sectorSize : v.bpb.bytesPerSector = 512
  perCluster : 1 ≤ v.bpb.sectorsPerCluster ∧ v.bpb.sectorsPerCluster ≤ 8
  copies : v.bpb.fatCount = 1 ∨ v.bpb.fatCount = 2
  covered : v.maxCluster ≤ 128 * v.bpb.fatSize32
  apart : v.bpb.fatCount * v.bpb.fatSize32 + (v.maxCluster - 2) * v.bpb.sectorsPerCluster ≤ 2 ^ 28

/-- Such a placement, with a FAT whose entries are numbered in 32 bits. -/
structure Geometry (v : Volume) : Prop extends Placement v where
  numbered : 128 * v.bpb.fatSize32 ≤ 2 ^ 32

/-- The second FAT copy, if there is one, equals the first. -/
def Synced (v : Volume) (d : Disk) : Prop :=
  v.bpb.fatCount = 2 → ∀ s < v.bpb.fatSize32, ∀ k < 512,
    readSector d ((v.fatLba + v.bpb.fatSize32 + s) % 2 ^ 32) k =
      readSector d ((v.fatLba + s) % 2 ^ 32) k

/-! ### Sectors, counted from the first FAT sector -/

/-- The LBA on the drive of the `k`th sector behind `fat_lba`. -/
def place (v : Volume) (k : Nat) : Nat := (v.fatLba + k) % 2 ^ 28

/-- The first sector of a cluster, counted from `fat_lba`. -/
def clusterPlace (v : Volume) (c : Nat) : Nat :=
  v.bpb.fatCount * v.bpb.fatSize32 + (c - 2) * v.bpb.sectorsPerCluster

variable {v : Volume}

theorem place_inj {j k : Nat} (first : j < 2 ^ 28) (second : k < 2 ^ 28) : v.place j = v.place k ↔ j = k := by
  unfold place
  omega

theorem readSector_place (d : Disk) (k : Nat) : readSector d ((v.fatLba + k) % 2 ^ 32) = d (v.place k) := by
  unfold readSector place
  rw [Nat.mod_mod_of_dvd _ (by decide : 2 ^ 28 ∣ 2 ^ 32)]

theorem writeSector_place (d : Disk) (k : Nat) (buffer : Storage) :
    writeSector d ((v.fatLba + k) % 2 ^ 32) buffer =
      fun sector => if sector = v.place k then buffer else d sector := by
  unfold writeSector place
  rw [Nat.mod_mod_of_dvd _ (by decide : 2 ^ 28 ∣ 2 ^ 32)]

theorem lba_eq {c : Nat} (low : 2 ≤ c) (high : c < 2 ^ 32) (i : Nat) :
    (v.clusterToLBA c + i) % 2 ^ 32 = (v.fatLba + (v.clusterPlace c + i)) % 2 ^ 32 := by
  have number : (c + 2 ^ 32 - 2) % 2 ^ 32 = c - 2 := by omega
  unfold clusterToLBA dataLba clusterPlace
  rw [number]
  simp only [Nat.mod_add_mod]
  exact congrArg (· % 2 ^ 32) (by ring)

theorem nextCluster_eq (d : Disk) {c : Nat} (small : c < 2 ^ 30) :
    v.nextCluster d c = readLE (d (v.place (c / 128))) (c % 128 * 4) 4 % 2 ^ 28 := by
  have offset : c * 4 % 2 ^ 32 = c * 4 := by omega
  have sector : c * 4 / 512 = c / 128 := by omega
  have entry : c * 4 % 512 = c % 128 * 4 := by omega
  unfold nextCluster
  rw [offset]
  simp only [sector, entry]
  rw [readSector_place, Nat.and_two_pow_sub_one_eq_mod _ 28]

theorem clusterPlace_inj {c other i : Nat} (low : 2 ≤ c) (low' : 2 ≤ other)
    (inside : i < v.bpb.sectorsPerCluster) (after : v.clusterPlace c ≤ v.clusterPlace other + i)
    (before : v.clusterPlace other + i < v.clusterPlace c + v.bpb.sectorsPerCluster) :
    other = c := by
  unfold clusterPlace at after before
  rcases lt_trichotomy other c with less | same | more
  · have gap : (other - 2 + 1) * v.bpb.sectorsPerCluster ≤ (c - 2) * v.bpb.sectorsPerCluster :=
      Nat.mul_le_mul_right _ (by omega)
    rw [Nat.succ_mul] at gap
    omega
  · exact same
  · have gap : (c - 2 + 1) * v.bpb.sectorsPerCluster ≤ (other - 2) * v.bpb.sectorsPerCluster :=
      Nat.mul_le_mul_right _ (by omega)
    rw [Nat.succ_mul] at gap
    omega

/-- The clusters that `AllocCluster` may return. -/
def isFree (v : Volume) (d : Disk) (c : Nat) : Bool :=
  decide (3 ≤ c ∧ c < v.maxCluster ∧ readLE (d (v.place (c / 128))) (c % 128 * 4) 4 % 2 ^ 28 = 0)

theorem allocCluster_eq_find (numbered : 128 * v.bpb.fatSize32 ≤ 2 ^ 32) (d : Disk) :
    v.allocCluster d = ((List.range (128 * v.bpb.fatSize32)).find? (v.isFree d)).getD 0 := by
  rw [List.find?_eq_findSome?_guard, Nat.mul_comm, ← findSome?_range_mul]
  refine congrArg (·.getD 0) (findSome?_congr fun s row => findSome?_congr fun i column => ?_)
  rw [List.mem_range] at row column
  have word : (s * 128 + i) % 2 ^ 32 = s * 128 + i := by omega
  have sector : (s * 128 + i) / 128 = s := by omega
  have entry : (s * 128 + i) % 128 = i := by omega
  simp only [word, Option.guard, isFree, sector, entry, decide_eq_true_eq, readSector_place,
    show 0x0FFFFFFF = 2 ^ 28 - 1 from rfl, Nat.and_two_pow_sub_one_eq_mod]
  by_cases outside : s * 128 + i < 3 ∨ v.maxCluster ≤ s * 128 + i
  · rw [if_pos outside, if_neg fun free => by omega]
  · rw [if_neg outside]
    exact if_congr ⟨fun zero => ⟨by omega, by omega, zero⟩, fun free => free.2.2⟩ rfl rfl

namespace Placement

variable (g : v.Placement)
include g

theorem limit_lt : v.maxCluster < 0x0FE04000 := by
  have sectors : v.maxCluster - 2 ≤ (v.maxCluster - 2) * v.bpb.sectorsPerCluster :=
    Nat.le_mul_of_pos_right _ g.perCluster.1
  have table : v.bpb.fatSize32 ≤ v.bpb.fatCount * v.bpb.fatSize32 :=
    Nat.le_mul_of_pos_left _ (by rcases g.copies with one | two <;> omega)
  have covered := g.covered
  have apart := g.apart
  omega

theorem clusterPlace_lt {c i : Nat} (low : 2 ≤ c) (high : c < v.maxCluster)
    (inside : i < v.bpb.sectorsPerCluster) : v.clusterPlace c + i < 2 ^ 28 := by
  have whole : (c - 2 + 1) * v.bpb.sectorsPerCluster ≤
      (v.maxCluster - 2) * v.bpb.sectorsPerCluster := Nat.mul_le_mul_right _ (by omega)
  have apart := g.apart
  rw [Nat.succ_mul] at whole
  unfold clusterPlace
  omega

theorem clusterSize_eq : v.bufSize = v.clusterSize ∧ v.clusterSize ≤ 4096 ∧ 512 ≤ v.clusterSize := by
  have sectors := g.perCluster
  unfold bufSize clusterSize
  refine ⟨?_, by omega, by omega⟩
  split <;> omega

theorem setFATEntry_place (d : Disk) {c j : Nat} (inTable : c < 128 * v.bpb.fatSize32)
    (small : c < 2 ^ 30) (bound : j < 2 ^ 28) (value : Nat) :
    v.setFATEntry d c value (v.place j) =
      if j = c / 128 ∨ (v.bpb.fatCount = 2 ∧ j = v.bpb.fatSize32 + c / 128) then
        writeLE (d (v.place j)) (c % 128 * 4) (value % 2 ^ 28) 4
      else d (v.place j) := by
  have offset : c * 4 % 2 ^ 32 = c * 4 := by omega
  have sector : c * 4 / 512 = c / 128 := by omega
  have entry : c * 4 % 512 = c % 128 * 4 := by omega
  have apart := g.apart
  unfold setFATEntry
  rw [offset]
  simp only [sector, entry, readSector_place, writeSector_place, Nat.add_assoc]
  rw [Nat.and_two_pow_sub_one_eq_mod _ 28]
  rcases g.copies with one | two
  · rw [one, Nat.one_mul] at apart
    rw [one, if_neg (by decide)]
    simp only [place_inj bound (show c / 128 < 2 ^ 28 by omega)]
    by_cases here : j = c / 128
    · rw [if_pos here, if_pos (.inl here), here]
    · rw [if_neg here, if_neg (by omega)]
  · rw [two] at apart
    rw [two, if_pos (by decide)]
    simp only [place_inj bound (show c / 128 < 2 ^ 28 by omega),
      place_inj bound (show v.bpb.fatSize32 + c / 128 < 2 ^ 28 by omega),
      place_inj (show v.bpb.fatSize32 + c / 128 < 2 ^ 28 by omega) (show c / 128 < 2 ^ 28 by omega)]
    rw [if_neg (show ¬ v.bpb.fatSize32 + c / 128 = c / 128 by omega)]
    by_cases copy : j = v.bpb.fatSize32 + c / 128
    · rw [if_pos copy, if_pos (.inr ⟨trivial, copy⟩), copy]
    · rw [if_neg copy]
      by_cases here : j = c / 128
      · rw [if_pos here, if_pos (.inl here), here]
      · rw [if_neg here, if_neg (by omega)]

theorem writeCluster_place (d : Disk) {c j : Nat} (low : 2 ≤ c) (high : c < v.maxCluster)
    (bound : j < 2 ^ 28) (buffer : Storage) :
    v.writeCluster d c buffer (v.place j) =
      if v.clusterPlace c ≤ j ∧ j < v.clusterPlace c + v.bpb.sectorsPerCluster then
        fun k => buffer ((j - v.clusterPlace c) * 512 + k)
      else d (v.place j) := by
  have word : c < 2 ^ 32 := lt_trans high (lt_trans g.limit_lt (by decide))
  -- the sectors written so far, by induction on their number
  have sofar : ∀ count ≤ v.bpb.sectorsPerCluster, (List.range count).foldl
        (fun d i => writeSector d ((v.clusterToLBA c + i) % 2 ^ 32) fun k => buffer (i * 512 + k)) d
        (v.place j) =
      if v.clusterPlace c ≤ j ∧ j < v.clusterPlace c + count then
        fun k => buffer ((j - v.clusterPlace c) * 512 + k)
      else d (v.place j) := by
    intro count fits
    induction count with
    | zero => rw [List.range_zero, List.foldl_nil, if_neg (by omega)]
    | succ count ih =>
      rw [List.range_succ, List.foldl_append, List.foldl_cons, List.foldl_nil, lba_eq low word,
        writeSector_place]
      simp only [place_inj bound (g.clusterPlace_lt low high (show count < _ by omega))]
      by_cases here : j = v.clusterPlace c + count
      · rw [if_pos here, if_pos (by omega), here, Nat.add_sub_cancel_left]
      · rw [if_neg here, ih (by omega)]
        by_cases earlier : v.clusterPlace c ≤ j ∧ j < v.clusterPlace c + count
        · rw [if_pos earlier, if_pos (by omega)]
        · rw [if_neg earlier, if_neg (by omega)]
  exact sofar _ le_rfl

theorem table_place {c j : Nat} (inTable : j < v.bpb.fatSize32) (i : Nat) : ¬ (v.clusterPlace c + i = j ∨
      (v.bpb.fatCount = 2 ∧ v.clusterPlace c + i = v.bpb.fatSize32 + j)) := by
  unfold clusterPlace
  rcases g.copies with one | two
  · rw [one]
    omega
  · rw [two]
    omega

theorem readCluster_eq (d : Disk) {c : Nat} (low : 2 ≤ c) (high : c < v.maxCluster) :
    v.readCluster d c = fun k =>
      if k < v.clusterSize then d (v.place (v.clusterPlace c + k / 512)) (k % 512) else 0 := by
  have word : c < 2 ^ 32 := lt_trans high (lt_trans g.limit_lt (by decide))
  funext k
  unfold readCluster
  rw [lba_eq low word, readSector_place]

section Entry

variable (d : Disk) {c other : Nat} (inTable : c < 128 * v.bpb.fatSize32) (small : c < 2 ^ 30) (value : Nat)
include inTable small

theorem nextCluster_setFATEntry (inTable' : other < 128 * v.bpb.fatSize32) (small' : other < 2 ^ 30) :
    v.nextCluster (v.setFATEntry d c value) other =
      if other = c then value % 2 ^ 28 else v.nextCluster d other := by
  rw [nextCluster_eq _ small', nextCluster_eq _ small', g.setFATEntry_place d inTable small (by omega)]
  by_cases same : other = c
  · rw [if_pos (.inl (by rw [same])), if_pos same, same, readLE_writeLE]
    omega
  · rw [if_neg same]
    by_cases sector : other / 128 = c / 128
    · rw [if_pos (.inl sector), readLE_writeLE_apart (by omega)]
    · rw [if_neg (by omega)]

theorem readCluster_setFATEntry (low : 2 ≤ other) (high : other < v.maxCluster) :
    v.readCluster (v.setFATEntry d c value) other = v.readCluster d other := by
  rw [g.readCluster_eq _ low high, g.readCluster_eq _ low high]
  funext k
  by_cases stored : k < v.clusterSize
  · rw [if_pos stored, if_pos stored, g.setFATEntry_place d inTable small
      (g.clusterPlace_lt low high (by unfold clusterSize at stored; omega)),
      if_neg (g.table_place (by omega) _)]
  · rw [if_neg stored, if_neg stored]

end Entry

theorem image_setFATEntry (d : Disk) {c : Nat} (high : c < v.maxCluster) (value : Nat) :
    v.image (v.setFATEntry d c value) = (v.image d).setFat c (value % 2 ^ 28) := by
  have limit := g.limit_lt
  have covered := g.covered
  have inTable := high.trans_le covered
  refine Image.ext rfl rfl rfl (funext fun other => ?_) (funext fun other => ?_)
  · show (if other < v.maxCluster then v.nextCluster (v.setFATEntry d c value) other else 0) =
      if other = c then value % 2 ^ 28
      else if other < v.maxCluster then v.nextCluster d other else 0
    by_cases inside : other < v.maxCluster
    · rw [if_pos inside, if_pos inside, g.nextCluster_setFATEntry d inTable (by omega) value (by omega)
        (by omega)]
    · rw [if_neg inside, if_neg inside, if_neg (by omega)]
  · show (if 2 ≤ other ∧ other < v.maxCluster then v.readCluster (v.setFATEntry d c value) other
        else fun _ => 0) =
      if 2 ≤ other ∧ other < v.maxCluster then v.readCluster d other else fun _ => 0
    by_cases inside : 2 ≤ other ∧ other < v.maxCluster
    · rw [if_pos inside, if_pos inside, g.readCluster_setFATEntry d inTable (by omega) value inside.1 inside.2]
    · rw [if_neg inside, if_neg inside]

section Contents

variable (d : Disk) {c other : Nat} (low : 2 ≤ c) (high : c < v.maxCluster) (buffer : Storage)
include low high

theorem nextCluster_writeCluster (inside : other < v.maxCluster) :
    v.nextCluster (v.writeCluster d c buffer) other = v.nextCluster d other := by
  have limit := g.limit_lt
  have covered := g.covered
  have first : v.bpb.fatSize32 ≤ v.clusterPlace c := by
    unfold clusterPlace
    rcases g.copies with one | two
    · rw [one]
      omega
    · rw [two]
      omega
  rw [nextCluster_eq _ (by omega), nextCluster_eq _ (by omega),
    g.writeCluster_place d low high (by omega), if_neg (by omega)]

theorem readCluster_writeCluster (low' : 2 ≤ other) (high' : other < v.maxCluster) :
    v.readCluster (v.writeCluster d c buffer) other =
      if other = c then v.clip buffer else v.readCluster d other := by
  rw [g.readCluster_eq _ low' high', g.readCluster_eq _ low' high']
  funext k
  by_cases stored : k < v.clusterSize
  · have sector : k / 512 < v.bpb.sectorsPerCluster := by
      unfold clusterSize at stored
      omega
    rw [if_pos stored, g.writeCluster_place d low high (g.clusterPlace_lt low' high' sector)]
    by_cases same : other = c
    · rw [if_pos same, same, if_pos ⟨by omega, by omega⟩, clip, if_pos stored,
        Nat.add_sub_cancel_left, Nat.div_add_mod']
    · rw [if_neg same, if_pos stored, if_neg fun within =>
        same (clusterPlace_inj low low' sector within.1 within.2)]
  · by_cases same : other = c
    · rw [if_neg stored, if_pos same, clip, if_neg stored]
    · rw [if_neg stored, if_neg same, if_neg stored]

end Contents

/-- **`WriteCluster` sets the contents of one cluster of the image.** -/
theorem image_writeCluster (d : Disk) {c : Nat} (low : 2 ≤ c) (high : c < v.maxCluster) (buffer : Storage) :
    v.image (v.writeCluster d c buffer) = (v.image d).setData c (v.clip buffer) := by
  refine Image.ext rfl rfl rfl (funext fun other => ?_) (funext fun other => ?_)
  · show (if other < v.maxCluster then v.nextCluster (v.writeCluster d c buffer) other else 0) =
      if other < v.maxCluster then v.nextCluster d other else 0
    by_cases inside : other < v.maxCluster
    · rw [if_pos inside, if_pos inside, g.nextCluster_writeCluster d low high buffer inside]
    · rw [if_neg inside, if_neg inside]
  · show (if 2 ≤ other ∧ other < v.maxCluster then v.readCluster (v.writeCluster d c buffer) other
        else fun _ => 0) =
      if other = c then v.clip buffer
      else if 2 ≤ other ∧ other < v.maxCluster then v.readCluster d other else fun _ => 0
    by_cases inside : 2 ≤ other ∧ other < v.maxCluster
    · rw [if_pos inside, if_pos inside, g.readCluster_writeCluster d low high buffer inside.1 inside.2]
    · rw [if_neg inside, if_neg inside, if_neg (by omega)]

/-! ### The FAT copies -/

theorem synced_setFATEntry {d : Disk} (synced : v.Synced d) {c : Nat} (high : c < v.maxCluster)
    (value : Nat) : v.Synced (v.setFATEntry d c value) := by
  intro two s inTable k inSector
  have limit := g.limit_lt
  have covered := g.covered
  have apart := g.apart
  rw [two] at apart
  have before := synced two s inTable k inSector
  rw [Nat.add_assoc, readSector_place, readSector_place] at before ⊢
  rw [g.setFATEntry_place d (by omega) (by omega) (by omega),
    g.setFATEntry_place d (by omega) (by omega) (by omega)]
  by_cases here : s = c / 128
  · rw [if_pos (.inr ⟨two, by omega⟩), if_pos (.inl here), writeLE, writeLE, before]
  · rw [if_neg (by omega), if_neg (by omega), before]

theorem synced_writeCluster {d : Disk} (synced : v.Synced d) {c : Nat} (low : 2 ≤ c)
    (high : c < v.maxCluster) (buffer : Storage) : v.Synced (v.writeCluster d c buffer) := by
  intro two s inTable k inSector
  have before := synced two s inTable k inSector
  have apart := g.apart
  have first : 2 * v.bpb.fatSize32 ≤ v.clusterPlace c := by
    unfold clusterPlace
    rw [two]
    omega
  rw [two] at apart
  rw [Nat.add_assoc, readSector_place, readSector_place] at before ⊢
  rw [g.writeCluster_place d low high (by omega), g.writeCluster_place d low high (by omega),
    if_neg (by omega), if_neg (by omega), before]

end Placement

/-! ### The search for a free cluster -/

namespace Geometry

variable (g : v.Geometry)
include g

/-- **`AllocCluster` returns the first free cluster of the image**, or 0. -/
theorem allocCluster_eq (d : Disk) : v.allocCluster d = (v.image d).freeList.headD 0 := by
  have limit := g.limit_lt
  have covered := g.covered
  have beyond : ∀ count, ((List.range count).map (v.maxCluster + ·)).find? (v.isFree d) = none := by
    intro count
    rw [List.find?_eq_none]
    intro c member
    obtain ⟨k, -, rfl⟩ := List.mem_map.mp member
    simp [isFree]
  rw [allocCluster_eq_find g.numbered,
    show 128 * v.bpb.fatSize32 = v.maxCluster + (128 * v.bpb.fatSize32 - v.maxCluster) by omega,
    List.range_add, List.find?_append, beyond, Option.or_none, ← List.head?_filter,
    List.headD_eq_head?_getD]
  refine congrArg (fun l => (List.head? l).getD 0) (List.filter_congr fun c member => ?_)
  rw [List.mem_range] at member
  have entry : (v.image d).fat c = v.nextCluster d c := if_pos member
  rw [entry, nextCluster_eq d (by omega)]
  simp [isFree, member]

end Geometry

end Volume

end LaylaOS.Fs
