/-
**Directory entries and 8.3 names.**

An entry is the 32 bytes of the packed `FAT32DirEntry`; a cluster of a directory is an array of
them. `toShortName` is the conversion every path component goes through.
-/

import Mathlib.Data.List.TakeWhile
import LaylaOS.Lib.Bytes

namespace LaylaOS.Fs

open LaylaOS.Lib

/-- The 11 bytes of `name` and `ext`. -/
abbrev Name := Fin 11 → UInt8

instance nameLength_neZero : NeZero 11 := ⟨by decide⟩

/-- The 32 bytes of a `FAT32DirEntry`. -/
abbrev DirEntry := Fin 32 → UInt8

namespace DirEntry

def bytes (e : DirEntry) : Storage := fun k => if inside : k < 32 then e ⟨k, inside⟩ else 0

def name (e : DirEntry) : Name := fun k => e (k.castLE (by decide))

def first (e : DirEntry) : UInt8 := e 0

def attributes (e : DirEntry) : UInt8 := e 11

/-- `((uint32_t)cluster_high << 16) | cluster_low`. -/
def startCluster (e : DirEntry) : Nat := readLE e.bytes 20 2 <<< 16 ||| readLE e.bytes 26 2

def size (e : DirEntry) : Nat := readLE e.bytes 28 4

/-- The directory bit of the attributes. -/
def isDirectory (e : DirEntry) : Bool := e.attributes &&& 0x10 != 0

/-- A slot that `AddDirEntry` may take. -/
def isDead (e : DirEntry) : Bool := e.first == 0 || e.first == 0xE5

/-- `entries[i].name[0] = 0xE5`. -/
def deleted (e : DirEntry) : DirEntry := fun k => if k = 0 then 0xE5 else e k

/-- The slots of a zeroed cluster. -/
def zero : DirEntry := fun _ => 0

end DirEntry

/-- The entry at index `i` of a cluster buffer. -/
def entryAt (buffer : Storage) (i : Nat) : DirEntry := fun k => buffer (32 * i + k)

/-- `fat_mem_copy(&entries[i], entry, 32)`. -/
def putEntry (buffer : Storage) (i : Nat) (e : DirEntry) : Storage := fun k =>
  if 32 * i ≤ k ∧ k < 32 * i + 32 then e.bytes (k - 32 * i) else buffer k

theorem entryAt_putEntry (buffer : Storage) (i j : Nat) (e : DirEntry) :
    entryAt (putEntry buffer i e) j = if j = i then e else entryAt buffer j := by
  funext k
  have bound := k.isLt
  unfold entryAt putEntry
  by_cases same : j = i
  · subst same
    rw [if_pos (by omega), if_pos rfl, Nat.add_sub_cancel_left]
    exact dif_pos bound
  · rw [if_neg (by omega), if_neg same]

/-! ### Names -/

/-- `if (c >= 'a' && c <= 'z') c -= 32`. -/
def upper (c : UInt8) : UInt8 := if 97 ≤ c ∧ c ≤ 122 then c - 32 else c

/-- The characters `ToShortName` copies in front of the dot: up to a dot, at most eight. -/
def shortBase (component : List UInt8) : List UInt8 := (component.takeWhile (· ≠ 46)).take 8

/-- The characters it copies behind the dot, if the base is followed by one: at most three. -/
def shortExt (component : List UInt8) : List UInt8 :=
  match component.drop (shortBase component).length with
  | 46 :: ext => ext.take 3
  | _ => []

def toShortName (component : List UInt8) : Name := fun k =>
  if k.val < 8 then ((shortBase component).map upper).getD k.val 32
  else ((shortExt component).map upper).getD (k.val - 8) 32

/-- The names of the first two entries of a directory made by `MakeDir`. -/
def dotName : Name := fun k => if k.val < 1 then 46 else 32

def dotDotName : Name := fun k => if k.val < 2 then 46 else 32

/-- `NamesMatch`. -/
def namesMatch (e : DirEntry) (name83 : Name) : Bool := decide (e.name = name83)

theorem upper_ne {c byte : UInt8} (other : c ≠ byte) (lower : byte < 65) : upper c ≠ byte := by
  unfold upper
  split
  · rename_i letter
    intro same
    have high : 97 ≤ c.toNat ∧ c.toNat ≤ 122 := by
      simpa [UInt8.le_iff_toNat_le] using letter
    have down : (c - 32).toNat = c.toNat - 32 := by
      rw [UInt8.toNat_sub_of_le _ _ (by rw [UInt8.le_iff_toNat_le]; exact le_trans (by decide) high.1)]
      rfl
    rw [same] at down
    rw [UInt8.lt_iff_toNat_lt] at lower
    have : (65 : UInt8).toNat = 65 := rfl
    omega
  · exact other

theorem toShortName_first {component : List UInt8} (terminated : 0 ∉ component) :
    toShortName component 0 ≠ 0 ∧ toShortName component 0 ≠ 46 := by
  unfold toShortName
  rw [if_pos (by decide)]
  cases base : shortBase component with
  | nil => simp
  | cons c rest =>
    have member : c ∈ component.takeWhile (· ≠ 46) :=
      List.mem_of_mem_take (by rw [← shortBase, base]; exact List.mem_cons_self)
    have noDot : c ≠ 46 := by simpa using List.mem_takeWhile_imp member
    have noZero : c ≠ 0 := fun same =>
      terminated (same ▸ (List.takeWhile_sublist _).subset member)
    exact ⟨upper_ne noZero (by decide), upper_ne noDot (by decide)⟩

/-! ### Building an entry -/

/-- `BuildDirEntry`, field by field of the packed record. -/
def buildDirEntry (name83 : Name) (attr : UInt8) (cluster size : Nat) : DirEntry :=
  let named : Storage := fun k => if inside : k < 11 then name83 ⟨k, inside⟩ else 0
  let record := writeLE named 11 attr.toNat 1      -- attributes
  let record := writeLE record 12 0 1              -- reserved
  let record := writeLE record 13 0 1              -- create_time_tenth
  let record := writeLE record 14 0x0000 2         -- create_time
  let record := writeLE record 16 0x4A21 2         -- create_date
  let record := writeLE record 18 0x4A21 2         -- access_date
  let record := writeLE record 20 (cluster >>> 16) 2
  let record := writeLE record 22 0x0000 2         -- write_time
  let record := writeLE record 24 0x4A21 2         -- write_date
  let record := writeLE record 26 (cluster &&& 0xFFFF) 2
  let record := writeLE record 28 size 4
  fun k => record k

theorem readLE_bytes (storage : Storage) {address width : Nat} (inside : address + width ≤ 32) :
    readLE (DirEntry.bytes fun k => storage k) address width = readLE storage address width :=
  readLE_congr fun place _ high => by
    unfold DirEntry.bytes
    rw [dif_pos (by omega)]

variable (name83 : Name) (attr : UInt8) (cluster size : Nat)

theorem buildDirEntry_name : (buildDirEntry name83 attr cluster size).name = name83 := by
  funext k
  have low : (k.castLE (by decide) : Fin 32).val < 11 := k.isLt
  show writeLE _ _ _ _ (k.castLE _ : Fin 32).val = _
  simp (disch := omega) only [writeLE_outside]
  exact dif_pos low

theorem buildDirEntry_first : (buildDirEntry name83 attr cluster size).first = name83 0 :=
  congrFun (buildDirEntry_name name83 attr cluster size) 0

theorem buildDirEntry_attributes : (buildDirEntry name83 attr cluster size).attributes = attr := by
  unfold DirEntry.attributes buildDirEntry
  have place : (11 : Fin 32).val = 11 := rfl
  simp only [place]
  simp (disch := omega) only [writeLE_outside]
  simp [writeLE]

theorem buildDirEntry_start (word : cluster < 2 ^ 32) :
    (buildDirEntry name83 attr cluster size).startCluster = cluster := by
  unfold DirEntry.startCluster buildDirEntry
  simp only
  rw [readLE_bytes _ (by decide), readLE_bytes _ (by decide)]
  simp (disch := omega) only [readLE_writeLE_apart]
  rw [readLE_writeLE, readLE_writeLE]
  have high : cluster >>> 16 % 256 ^ 2 = cluster / 2 ^ 16 := by
    rw [Nat.shiftRight_eq_div_pow]
    omega
  have low : (cluster &&& 0xFFFF) % 256 ^ 2 = cluster % 2 ^ 16 := by
    rw [Nat.and_two_pow_sub_one_eq_mod cluster 16]
    omega
  rw [high, low, ← Nat.shiftLeft_add_eq_or_of_lt (Nat.mod_lt _ (by decide)), Nat.shiftLeft_eq]
  omega

theorem buildDirEntry_size (word : size < 2 ^ 32) : (buildDirEntry name83 attr cluster size).size = size := by
  unfold DirEntry.size buildDirEntry
  simp only
  rw [readLE_bytes _ (by decide), readLE_writeLE]
  omega

end LaylaOS.Fs
