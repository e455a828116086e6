/-
**What `DeleteFile` removes.**

The chain of the file is freed while it is walked, and the entry is then searched a second time. On a
well-formed volume one entry and the clusters of one chain are gone afterwards, in every copy of the
FAT; a call that returns false has written nothing.

* `deleteFile_removes_one` — the result, and what has changed.
-/

import LaylaOS.Fs.Holding

namespace LaylaOS.Fs

open LaylaOS.Lib

namespace Volume

open Image

variable {v : Volume} {d d' : Disk} {I : Image}

/-! ### The FAT copies -/

/-- The word for the cluster `n` in a copy of the FAT. -/
def fatEntry (v : Volume) (d : Disk) (copy n : Nat) : Nat :=
  readLE (readSector d ((v.fatLba + (copy * v.bpb.fatSize32 + n / 128)) % 2 ^ 32)) (n % 128 * 4) 4

section Table

variable (g : v.Geometry) {copy n : Nat} (inCopies : copy < v.bpb.fatCount)
  (inTable : n < 128 * v.bpb.fatSize32)
include g inCopies inTable

omit g inTable in
theorem copy_cases (count : v.bpb.fatCount = 1 ∨ v.bpb.fatCount = 2) :
    copy = 0 ∨ (copy = 1 ∧ v.bpb.fatCount = 2) := by
  rcases count with one | two <;> omega

theorem table_lt : copy * v.bpb.fatSize32 + n / 128 < v.bpb.fatCount * v.bpb.fatSize32 := by
  rcases copy_cases inCopies g.copies with rfl | ⟨rfl, two⟩
  · have := Nat.mul_le_mul_right v.bpb.fatSize32 (show 1 ≤ v.bpb.fatCount by omega)
    omega
  · rw [two]
    omega

theorem fatEntry_setFATEntry {c : Nat} (high : c < v.maxCluster) (value : Nat) :
    v.fatEntry (v.setFATEntry d c value) copy n =
      if n = c then value % 2 ^ 28 else v.fatEntry d copy n := by
  have limit := g.limit_lt
  have covered := g.covered
  have apart := g.apart
  have place := table_lt g inCopies inTable
  have sector : (copy * v.bpb.fatSize32 + n / 128 = c / 128 ∨
      (v.bpb.fatCount = 2 ∧ copy * v.bpb.fatSize32 + n / 128 = v.bpb.fatSize32 + c / 128)) ↔
      n / 128 = c / 128 := by
    rcases copy_cases inCopies g.copies with rfl | ⟨rfl, two⟩ <;> omega
  unfold fatEntry
  rw [readSector_place, readSector_place, g.setFATEntry_place d (by omega) (by omega) (by omega)]
  simp only [sector]
  by_cases same : n = c
  · rw [if_pos same, if_pos (by rw [same]), same, readLE_writeLE]
    omega
  · rw [if_neg same]
    by_cases row : n / 128 = c / 128
    · rw [if_pos row, readLE_writeLE_apart (by omega)]
    · rw [if_neg row]

theorem fatEntry_writeCluster {c : Nat} (low : 2 ≤ c) (high : c < v.maxCluster) (buffer : Storage) :
    v.fatEntry (v.writeCluster d c buffer) copy n = v.fatEntry d copy n := by
  have apart := g.apart
  have place := table_lt g inCopies inTable
  have behind : v.bpb.fatCount * v.bpb.fatSize32 ≤ v.clusterPlace c := Nat.le_add_right _ _
  unfold fatEntry
  rw [readSector_place, readSector_place, g.writeCluster_place d low high (by omega), if_neg (by omega)]

theorem fatEntry_freeChainLoop {c fuel : Nat} {l : List Nat} (r : v.Represents d I)
    (walk : Walk I.fat InTable c l) (inRange : ∀ x ∈ l, x < I.limit)
    (freed : v.freeChainLoop fuel d c = some d') :
    v.fatEntry d' copy n = if n ∈ l then 0 else v.fatEntry d copy n := by
  induction l generalizing d I c fuel with
  | nil =>
    cases fuel with
    | zero => cases freed
    | succ fuel =>
      rw [freeChainLoop, if_neg (show ¬ (2 ≤ c ∧ c < endOfChain) from walk)] at freed
      cases freed
      exact (if_neg List.not_mem_nil).symm
  | cons first rest ih =>
    obtain ⟨rfl, entered, later⟩ := walk
    cases fuel with
    | zero => cases freed
    | succ fuel =>
      have high := inRange first List.mem_cons_self
      have fresh : first ∉ rest := (List.nodup_cons.mp (show Walk I.fat InTable first
        (first :: rest) from ⟨rfl, entered, later⟩).nodup).1
      have onward : Walk (I.setFat first 0).fat InTable (I.fat first) rest :=
        later.congr fun x member => I.setFat_of_ne 0 fun same => fresh (same ▸ member)
      rw [freeChainLoop, if_pos (show 2 ≤ first ∧ first < endOfChain from entered)] at freed
      simp only at freed
      rw [r.nextCluster_eq high] at freed
      rw [ih (r.setFATEntry g high (by decide)) onward
        (fun x member => inRange x (List.mem_cons_of_mem _ member)) freed,
        fatEntry_setFATEntry g inCopies inTable (by rw [r.limit_eq]; exact high)]
      by_cases here : n = first
      · rw [if_pos here, if_pos (List.mem_cons.mpr (.inl here)), Nat.zero_mod, ite_self]
      · rw [if_neg here]
        simp only [List.mem_cons, here, false_or]

theorem fatEntry_markEntryDeletedLoop {name83 : Name} {c fuel : Nat} {l : List Nat} {b : Bool}
    (r : v.Represents d I) (segment : I.Segment c l)
    (marked : v.markEntryDeletedLoop d name83 fuel c = some (d', b)) :
    v.fatEntry d' copy n = v.fatEntry d copy n := by
  induction l generalizing c fuel with
  | nil =>
    cases fuel with
    | zero => cases marked
    | succ fuel =>
      rw [markEntryDeletedLoop, if_neg segment.ends] at marked
      cases marked
      rfl
  | cons x l ih =>
    cases fuel with
    | zero => cases marked
    | succ fuel =>
      obtain ⟨rfl, inside, high, onward⟩ := segment.uncons
      rw [markEntryDeletedLoop, if_pos inside] at marked
      simp only at marked
      rw [r.nextCluster_eq high] at marked
      split at marked
      · cases marked
        rfl
      · cases marked
        exact fatEntry_writeCluster g inCopies inTable segment.low (by rw [r.limit_eq]; exact high) _
      · exact ih onward marked

end Table

/-! ### The call -/

/-- **One file is gone**: its path does not resolve, the words of its chain are zero in every copy of
the FAT and no other word has changed, and every path that leads to another place, a directory and a
name in it, resolves and reads back as before. -/
structure Removes (v : Volume) (d d' : Disk) (path : CString) (e : DirEntry) : Prop where
  gone : v.resolvePath d' path = some none
  table : ∀ copy < v.bpb.fatCount, ∀ n < 128 * v.bpb.fatSize32, v.fatEntry d' copy n =
    if n ∈ (v.image d).chain e.startCluster then 0 else v.fatEntry d copy n
  others : ∀ other : CString,
    (v.image d).place (pathComponents other) ≠ (v.image d).place (pathComponents path) →
      v.resolvePath d' other = v.resolvePath d other ∧ v.readBack d' other = v.readBack d other

/-- A call that found a file has freed its chain and searched for its entry; any other has written
nothing. -/
theorem deleteFile_cases {path : CString} {b : Bool} (ran : v.deleteFile d path = some (d', b)) :
    (d' = d ∧ b = false) ∨ ∃ D name e d₁, v.resolveParentDir d path = some (some (D, name)) ∧
      v.findEntry d D name = some (some e) ∧ e.isDirectory = false ∧
      v.freeChainLoop loopFuel d e.startCluster = some d₁ ∧
      v.markEntryDeleted d₁ D (toShortName name) = some (d', b) := by
  rw [deleteFile] at ran
  obtain ⟨target, parent, ran⟩ := Option.bind_eq_some_iff.mp ran
  cases target with
  | none =>
    cases ran
    exact .inl ⟨rfl, rfl⟩
  | some target =>
    obtain ⟨D, name⟩ := target
    obtain ⟨entry, found, ran⟩ := Option.bind_eq_some_iff.mp ran
    cases entry with
    | none =>
      cases ran
      exact .inl ⟨rfl, rfl⟩
    | some e =>
      cases directory : e.isDirectory with
      | true =>
        simp only [directory, if_true] at ran
        cases ran
        exact .inl ⟨rfl, rfl⟩
      | false =>
        simp only [directory, Bool.false_eq_true, if_false] at ran
        obtain ⟨d₁, freed, marked⟩ := Option.bind_eq_some_iff.mp ran
        exact .inr ⟨D, name, e, d₁, parent, found, directory, freed, marked⟩

theorem readBack_of_touches {I' : Image} {D : Nat} {name83 : Name} (wf : v.WellFormed d)
    (r' : v.Represents d' I') (touches : Touches (v.image d) I' D name83) (other : CString)
    (elsewhere : (v.image d).place (pathComponents other) ≠ some (D, name83)) :
    v.readBack d' other = v.readBack d other := by
  have terminated := pathComponents_terminated other
  have same := touches.resolve terminated elsewhere
  have holds : ∀ e, (v.image d).resolve (v.image d).root (pathComponents other) = some e →
      e.isDirectory = false → I'.Holds (pathComponents other) ((v.image d).contents e) :=
    fun e found file => touches.holds _ _ terminated (wf.regular.holds terminated found file) elsewhere
  have readable : ∀ e, I'.resolve I'.root (pathComponents other) = some e →
      e.isDirectory = false → I'.Readable e := by
    intro e found file
    rw [same] at found
    obtain ⟨e', found', -, readable, -⟩ := holds e found file
    rw [same, found] at found'
    cases found'
    exact readable
  have file : I'.fileAt (pathComponents other) = (v.image d).fileAt (pathComponents other) := by
    rw [fileAt, fileAt, same]
    refine Option.bind_congr fun e found => ?_
    cases file : e.isDirectory with
    | true => rw [if_pos rfl, if_pos rfl]
    | false =>
      obtain ⟨e', found', -, -, -, contents⟩ := holds e found file
      rw [same, found] at found'
      cases found'
      rw [contents]
  have after := readBack_spec wf.geometry r' touches.sound other readable
  rw [file] at after
  exact after.trans (wf.readBack_eq other).symm

theorem resolvePath_entry_iff (wf : v.WellFormed d) (path : CString) (e : DirEntry) :
    v.resolvePath d path = some (some (.entry e)) ↔
      (v.image d).resolve (v.image d).root (pathComponents path) = some e := by
  rw [resolvePath_spec wf.geometry wf.represents wf.regular.sound]
  by_cases root : pathComponents path = []
  · rw [if_pos root, root]
    exact iff_of_false nofun nofun
  · rw [if_neg root, Option.some.injEq, Option.map_eq_some_iff]
    constructor
    · rintro ⟨e', found, same⟩
      cases same
      exact found
    · intro found
      exact ⟨e, found, rfl⟩

section Call

variable (g : v.Geometry) (r : v.Represents d I) (sound : I.Sound)
include g r sound

theorem searches_eq {path : CString} (noEmpty : ¬ [47, 47] <:+: path.val) {D : Nat}
    {name : List UInt8} {e : DirEntry} (parent : v.resolveParentDir d path = some (some (D, name)))
    (found : v.findEntry d D name = some (some e)) :
    I.resolveParent I.root (pathComponents path) = some (D, name) ∧
      I.lookup D (toShortName name) = some e ∧ I.IsDir D := by
  rw [resolveParentDir_spec g r sound, Option.some.injEq] at parent
  obtain ⟨dir, -⟩ := parent_isDir path parent
  rw [findEntry_spec g r sound dir, Option.some.injEq] at found
  rw [components_eq noEmpty] at parent
  exact ⟨parent, found, dir⟩

theorem fatEntry_deleted {D i : Nat} {name83 : Name} {e : DirEntry} {d₁ : Disk} {b : Bool}
    (dir : I.IsDir D) (vacates : Vacates I D name83 (some e) i (I.chain e.startCluster))
    (freed : v.freeChainLoop loopFuel d e.startCluster = some d₁)
    (marked : v.markEntryDeleted d₁ D name83 = some (d', b)) {copy n : Nat}
    (inCopies : copy < v.bpb.fatCount) (inTable : n < 128 * v.bpb.fatSize32) :
    v.fatEntry d' copy n = if n ∈ I.chain e.startCluster then 0 else v.fatEntry d copy n := by
  have agrees : Agrees I (I.free (I.chain e.startCluster)) (some (D, i)) :=
    vacates.agrees (L := []) sound dir rfl (List.nil_subset _) (fun _ _ => rfl) fun _ _ => rfl
  obtain ⟨strict, -, -⟩ := (agrees.admits_dead dir vacates.file e.deleted_isDead).directory sound
  have inside := (sound.directory D dir).1
  cases vacates with
  | old _ slot named _ =>
    have owns : I.Owns (some (D, i)) e.startCluster := .entry dir slot named
    have loose := sound.chained _ _ owns
    obtain ⟨d₂, freed', r₁⟩ := freeChain_spec g r sound owns
    obtain rfl : d₁ = d₂ := Option.some.inj (freed.symm.trans freed')
    rw [fatEntry_markEntryDeletedLoop g inCopies inTable r₁ ⟨strict.walk, strict.linked, inside.1⟩ marked]
    exact fatEntry_freeChainLoop g inCopies inTable r loose.walk (fun x member => (loose.used x member).1) freed

end Call

theorem Removes.of_delete (wf : v.WellFormed d) {path : CString} {I' : Image} {e : DirEntry}
    (r' : v.Represents d' I') (delete : Delete (v.image d) (pathComponents path) I' true)
    (resolves : (v.image d).resolve (v.image d).root (pathComponents path) = some e)
    (table : ∀ copy < v.bpb.fatCount, ∀ n < 128 * v.bpb.fatSize32, v.fatEntry d' copy n =
      if n ∈ (v.image d).chain e.startCluster then 0 else v.fatEntry d copy n) :
    v.Removes d d' path e := by
  have g := wf.geometry
  have r := wf.represents
  have sound := wf.regular.sound
  obtain ⟨D, name, -, -, parent, -, -, touches, gone⟩ :=
    delete.removed sound wf.regular.unique (pathComponents_terminated path)
  have place : (v.image d).place (pathComponents path) = some (D, toShortName name) := by
    rw [Image.place, parent]
    rfl
  refine ⟨?_, table, fun other elsewhere => ?_⟩
  · have unresolved : I'.resolve I'.root (pathComponents path) = none := by
      rw [resolve_place, touches.places _ (pathComponents_terminated path), place]
      exact gone
    have nonempty : pathComponents path ≠ [] := by
      intro root
      rw [root] at resolves
      cases resolves
    rw [resolvePath_spec g r' touches.sound, if_neg nonempty, unresolved]
    rfl
  · rw [place] at elsewhere
    refine ⟨?_, readBack_of_touches wf r' touches other elsewhere⟩
    rw [resolvePath_spec g r' touches.sound, resolvePath_spec g r sound,
      touches.resolve (pathComponents_terminated other) elsewhere]

/-- **`DeleteFile` removes exactly one file.** -/
theorem deleteFile_removes_one (wf : v.WellFormed d) (path : CString) (noEmpty : ¬ [47, 47] <:+: path.val) :
    ∃ d' b, v.deleteFile d path = some (d', b) ∧
      (b = true ↔ ∃ e, v.resolvePath d path = some (some (.entry e)) ∧ e.isDirectory = false) ∧
      (b = false → d' = d) ∧
      (b = true → ∃ e, v.resolvePath d path = some (some (.entry e)) ∧ v.Removes d d' path e) := by
  have g := wf.geometry
  have r := wf.represents
  have sound := wf.regular.sound
  obtain ⟨d', I', b, ran, r', delete⟩ := deleteFile_spec g r sound path
  rw [components_eq noEmpty] at delete
  have result := delete.result_iff
  simp only [← resolvePath_entry_iff wf] at result
  refine ⟨d', b, ran, result, ?_⟩
  rcases deleteFile_cases ran with ⟨same, failed⟩ | ⟨D, name, e, d₁, parent, found, file, freed, marked⟩
  · exact ⟨fun _ => same, fun success => absurd success (failed ▸ Bool.false_ne_true)⟩
  · obtain ⟨parent, found, dir⟩ := searches_eq g r sound noEmpty parent found
    have resolves : (v.image d).resolve (v.image d).root (pathComponents path) = some e := by
      rw [resolve_eq, parent, Option.bind_some]
      exact found
    have entry := (resolvePath_entry_iff wf path e).mpr resolves
    have success := result.mpr ⟨e, entry, file⟩
    subst success
    refine ⟨fun failed => absurd failed.symm Bool.false_ne_true, fun _ => ⟨e, entry, ?_⟩⟩
    refine Removes.of_delete wf r' delete resolves fun copy inCopies n inTable => ?_
    obtain ⟨i, vacates⟩ := vacates_of_lookup (parent_isDir path ((components_eq noEmpty).symm ▸ parent)).2
      found file
    exact fatEntry_deleted g r sound dir vacates freed marked inCopies inTable

theorem deleteFile_removes_one_letter : ∃ d' e,
    sample.deleteFile withLetter ⟨[65], letter_terminated⟩ = some (d', true) ∧
      sample.Removes withLetter d' ⟨[65], letter_terminated⟩ e := by
  obtain ⟨d', b, ran, -, -, removed⟩ :=
    deleteFile_removes_one withLetter_wellFormed ⟨[65], letter_terminated⟩ (by decide)
  have success : (sample.deleteFile withLetter ⟨[65], letter_terminated⟩).map Prod.snd = some true := by
    decide +kernel
  rw [ran, Option.map_some, Option.some.injEq] at success
  subst success
  obtain ⟨e, -, removes⟩ := removed rfl
  exact ⟨d', e, ran, removes⟩

end Volume

end LaylaOS.Fs
