/-
**Files that a path holds.**

`Holds I names data`: the path leads to a file with the bytes `data`. A path is tied to one place,
a directory and an 8.3 name, and calls on other places leave what it holds.
-/

import LaylaOS.Fs.WellFormed

namespace LaylaOS.Fs

open LaylaOS.Lib

namespace Image

variable {I I' : Image} {D i : Nat} {name83 : Name} {old : Option DirEntry} {O : List Nat}
  {data bytes : List UInt8} {names others : List (List UInt8)}

/-- The directory and the 8.3 name that a list of components leads to. -/
def place (I : Image) (names : List (List UInt8)) : Option (Nat × Name) :=
  (I.resolveParent I.root names).map fun target => (target.1, toShortName target.2)

theorem resolve_place (I : Image) (names : List (List UInt8)) :
    I.resolve I.root names = (I.place names).bind fun place => I.lookup place.1 place.2 := by
  rw [resolve_eq, place, Option.bind_map]
  rfl

/-- The path leads to a file with the bytes `data`. -/
def Holds (I : Image) (names : List (List UInt8)) (data : List UInt8) : Prop :=
  ∃ e, I.resolve I.root names = some e ∧ e.isDirectory = false ∧ I.Readable e ∧
    e.size = data.length ∧ I.contents e = data

theorem Holds.fileAt (holds : I.Holds names data) : I.fileAt names = some (data.length, data) := by
  obtain ⟨e, found, file, -, size, contents⟩ := holds
  rw [Image.fileAt, found, Option.bind_some, file, if_neg Bool.false_ne_true, size, contents]

theorem Regular.holds (regular : I.Regular) (terminated : ∀ n ∈ names, 0 ∉ n) {e : DirEntry}
    (found : I.resolve I.root names = some e) (file : e.isDirectory = false) :
    I.Holds names (I.contents e) := by
  obtain ⟨D, j, dir, slot, named⟩ := resolve_slot terminated found
  refine ⟨e, found, file, regular.readable dir slot named, ?_, rfl⟩
  rw [Image.contents, List.length_take, Image.flatMap_bytesOf_length]
  exact (Nat.min_eq_left (regular.sized D j e dir slot named)).symm

/-- **The frame rule**: a change at one place leaves the files at others. -/
theorem Holds.frame (holds : I.Holds names data) (terminated : ∀ n ∈ names, 0 ∉ n)
    (lookups : SameLookups I I' D name83) (files : SameFiles I I' D i)
    (fatZero : I'.fat 0 = I.fat 0) (places : I'.place names = I.place names)
    (other : I.place names ≠ some (D, name83)) (vacates : Vacates I D name83 old i O) :
    I'.Holds names data := by
  obtain ⟨e, found, file, readable, size, contents⟩ := holds
  cases parent : I.resolveParent I.root names with
  | none =>
    rw [resolve_eq, parent] at found
    cases found
  | some target =>
    obtain ⟨D', last⟩ := target
    obtain ⟨dir, ends⟩ := resolveParent_isDir .root terminated parent
    have here : I.place names = some (D', toShortName last) := by rw [Image.place, parent]; rfl
    rw [here] at other
    have different : (D', toShortName last) ≠ (D, name83) := fun same => other (by rw [same])
    rw [resolve_place, here, Option.bind_some] at found
    obtain ⟨member, live, name⟩ := lookup_mem found
    obtain ⟨j, slot⟩ := List.mem_iff_getElem?.mp member
    have elsewhere : (D', j) ≠ (D, i) := by
      intro same
      cases same
      have rename : toShortName last ≠ name83 := fun equal => different (by rw [equal])
      have unmatched := vacates.name_eq rename e slot
      simp [Matches, namesMatch, live, name] at unmatched
    have named := lookup_named (terminated last (List.mem_of_getLast? ends)) found
    obtain ⟨contents', strict⟩ := files D' j e dir slot named file elsewhere
    refine ⟨e, ?_, file, ?_, size, contents'.trans contents⟩
    · rw [resolve_place, places, here, Option.bind_some, lookups D' _ dir different, found]
    · rcases readable with ⟨inTable, before⟩ | ⟨start, mark, empty⟩
      · exact .inl ⟨inTable, strict before⟩
      · exact .inr ⟨start, fatZero ▸ mark, empty⟩

/-- Only the place `(D, name83)` has changed. -/
structure Touches (I I' : Image) (D : Nat) (name83 : Name) : Prop where
  sound : I'.Sound
  unique : I'.UniqueNames
  places : ∀ names, (∀ n ∈ names, 0 ∉ n) → I'.place names = I.place names
  lookups : SameLookups I I' D name83
  holds : ∀ names data, (∀ n ∈ names, 0 ∉ n) → I.Holds names data →
    I.place names ≠ some (D, name83) → I'.Holds names data

theorem Touches.resolve (touches : Touches I I' D name83) (terminated : ∀ n ∈ names, 0 ∉ n)
    (other : I.place names ≠ some (D, name83)) :
    I'.resolve I'.root names = I.resolve I.root names := by
  rw [resolve_place, resolve_place, touches.places names terminated]
  cases parent : I.resolveParent I.root names with
  | none => rw [place, parent, Option.map_none, Option.bind_none, Option.bind_none]
  | some target =>
    rw [place, parent, Option.map_some] at other ⊢
    exact touches.lookups _ _ (resolveParent_isDir .root terminated parent).1 fun same => other (by rw [same])

/-- **What a successful write does**: it changes one place, which then stands for the data, unless
its name starts with 0xE5. -/
theorem Write.touches (write : Write I names data I' true) (sound : I.Sound)
    (unique : I.UniqueNames) (terminated : ∀ n ∈ names, 0 ∉ n) (size : data.length < 2 ^ 32) :
    ∃ D name83, I.place names = some (D, name83) ∧ Touches I I' D name83 ∧
      (name83 0 ≠ 0xE5 → ∀ others, I'.place others = some (D, name83) → I'.Holds others data) ∧
      (name83 0 = 0xE5 → I'.lookup D name83 = none) := by
  obtain ⟨D, name, old, i, O, found, last, dir, entry, vacates, written, parents⟩ :=
    write.written sound unique terminated size
  have places : ∀ others, (∀ n ∈ others, 0 ∉ n) → I'.place others = I.place others := by
    intro others ended
    rw [place, place, parents ended]
  refine ⟨D, toShortName name, by rw [place, found]; rfl, ⟨written.sound, written.unique, places,
    written.lookups, ?_⟩, ?_, written.lost⟩
  · intro others bytes ended holds other
    exact holds.frame ended written.lookups written.files written.fatZero (places others ended) other vacates
  · intro live others here
    obtain ⟨e, stored, file, size, contents, inTable, strict⟩ := written.stored live
    refine ⟨e, ?_, file, .inl ⟨inTable, strict⟩, size, contents⟩
    rw [resolve_place, here]
    exact stored

theorem Deleted.touches {e : DirEntry} (deleted : Deleted I I' D i name83)
    (vacates : Vacates I D name83 (some e) i O) (entry : I.lookup D name83 = some e) :
    Touches I I' D name83 := by
  have after : I'.subdirectory D name83 = none := by
    rw [subdirectory, deleted.gone]
    rfl
  have places : ∀ others, (∀ n ∈ others, 0 ∉ n) → I'.place others = I.place others := by
    intro others ended
    rw [place, place, deleted.lookups.resolveParent deleted.shape (vacates.subdirectory entry) after ended]
  refine ⟨deleted.sound, deleted.unique, places, deleted.lookups, ?_⟩
  intro others bytes ended holds other
  exact holds.frame ended deleted.lookups deleted.files deleted.fatZero (places others ended) other vacates

theorem Delete.result_iff {b : Bool} (delete : Delete I names I' b) :
    b = true ↔ ∃ e, I.resolve I.root names = some e ∧ e.isDirectory = false := by
  simp only [resolve_eq]
  cases delete with
  | unresolved parent => simp [parent]
  | missing parent entry => simp [parent, entry]
  | directory parent entry directory => simp [parent, entry, directory]
  | done parent entry vacates =>
    cases vacates with
    | old _ _ _ file => simp [parent, entry, file]

/-- **What a successful delete does**: one place stands for nothing. -/
theorem Delete.removed (delete : Delete I names I' true) (sound : I.Sound) (unique : I.UniqueNames)
    (terminated : ∀ n ∈ names, 0 ∉ n) :
    ∃ D name e i, I.resolveParent I.root names = some (D, name) ∧ I.lookup D (toShortName name) = some e ∧
      Vacates I D (toShortName name) (some e) i (I.chain e.startCluster) ∧
      Touches I I' D (toShortName name) ∧ I'.lookup D (toShortName name) = none := by
  cases delete with
  | @done D i name e O parent entry vacates =>
    obtain ⟨dir, -⟩ := resolveParent_isDir .root terminated parent
    have deleted := vacates.deleted sound unique dir entry
    have touches := deleted.touches vacates entry
    have gone := deleted.gone
    cases vacates with
    | old found slot named file =>
      exact ⟨D, name, e, i, parent, entry, .old found slot named file, touches, gone⟩

theorem Delete.touches {b : Bool} (delete : Delete I names I' b) (sound : I.Sound)
    (unique : I.UniqueNames) (terminated : ∀ n ∈ names, 0 ∉ n) (holds : I.Holds names data) :
    ∃ D name83, I.place names = some (D, name83) ∧ Touches I I' D name83 ∧ I'.lookup D name83 = none := by
  obtain ⟨e, found, file, -⟩ := holds
  have success := delete.result_iff.mpr ⟨e, found, file⟩
  subst success
  obtain ⟨D, name, -, -, parent, -, -, touches, gone⟩ := delete.removed sound unique terminated
  exact ⟨D, toShortName name, by rw [place, parent]; rfl, touches, gone⟩

end Image

end LaylaOS.Fs
