/-
**When two names stand for one file** (`WriteFile`).

`WriteFile` replaces whatever has the 8.3 name of the last component of its path.

* `write_keeps_iff` — a successful write in a directory leaves a file there as it was exactly if the two
  names have different conversions, or the file had those bytes before.
-/

import LaylaOS.Fs.Deletion
import LaylaOS.Fs.ShortNames

namespace LaylaOS.Fs

open LaylaOS.Lib

namespace Volume

open Image

variable {v : Volume} {d d' : Disk} {D : Nat} {path : CString} {name data : List UInt8}

theorem place_of_parent (wf : v.WellFormed d) (parent : v.resolveParentDir d path = some (some (D, name))) :
    (v.image d).place (parentComponents path) = some (D, toShortName name) := by
  rw [resolveParentDir_spec wf.geometry wf.represents wf.regular.sound, Option.some.injEq] at parent
  rw [Image.place, parent]
  rfl

theorem place_live (wf : v.WellFormed d) {file : Nat × List UInt8} {name83 : Name}
    (place : (v.image d).place (pathComponents path) = some (D, name83))
    (reads : v.readBack d path = some (some file)) : name83 0 ≠ 0xE5 := by
  rw [wf.readBack_eq, Option.some.injEq, Image.fileAt, resolve_place, place, Option.bind_some] at reads
  obtain ⟨e, found, -⟩ := Option.bind_eq_some_iff.mp reads
  obtain ⟨-, live, named⟩ := lookup_mem found
  intro deleted
  have dead : e.isDead = true := DirEntry.isDead_iff.mpr (.inr ((congrFun named 0).trans deleted))
  rw [dead] at live
  cases live

theorem readBack_of_holds {I : Image} (g : v.Geometry) (r : v.Represents d I) (sound : I.Sound)
    (holds : I.Holds (pathComponents path) data) :
    v.readBack d path = some (some (data.length, data)) := by
  rw [readBack_spec g r sound path, holds.fileAt]
  intro e found file
  obtain ⟨e', found', -, readable, -⟩ := holds
  rw [found] at found'
  cases found'
  exact readable

/-- **A write in a directory and a file there.** The file reads back as before exactly if the two names
have different conversions, or its bytes are the ones written; names that fit and differ in more than
case have different ones. -/
theorem write_keeps_iff (wf : v.WellFormed d) (path₁ path₂ : CString)
    (noEmpty : ¬ [47, 47] <:+: path₁.val) (D : Nat) (c₁ c₂ : List UInt8)
    (parent₁ : v.resolveParentDir d path₁ = some (some (D, c₁)))
    (parent₂ : v.resolveParentDir d path₂ = some (some (D, c₂)))
    (file : Nat × List UInt8) (reads : v.readBack d path₁ = some (some file))
    (data : List UInt8) (word : data.length < 2 ^ 32)
    (written : v.writeFile d path₂ data = some (d', true)) :
    (v.readBack d' path₁ = some (some file) ↔ toShortName c₁ ≠ toShortName c₂ ∨ file = (data.length, data)) ∧
      (Fits c₁ → Fits c₂ → c₁.map upper ≠ c₂.map upper → v.readBack d' path₁ = some (some file)) := by
  obtain ⟨I', r', write⟩ := wf.write path₂ word written
  obtain ⟨D', name83, place, touches, stored, -⟩ :=
    write.touches wf.regular.sound wf.regular.unique (parentComponents_terminated path₂) word
  cases place.symm.trans (place_of_parent wf parent₂)
  have place₁ := place_of_parent wf parent₁
  rw [components_eq noEmpty] at place₁
  have keeps (differ : toShortName c₁ ≠ toShortName c₂) : v.readBack d' path₁ = some (some file) := by
    refine (readBack_of_touches wf r' touches path₁ fun same => differ ?_).trans reads
    rw [place₁] at same
    exact (Prod.mk.inj (Option.some.inj same)).2
  refine ⟨?_, fun fits₁ fits₂ differ => keeps fun same => differ (toShortName_inj fits₁ fits₂ same)⟩
  by_cases differ : toShortName c₁ ≠ toShortName c₂
  · exact iff_of_true (keeps differ) (.inl differ)
  · have same := not_not.mp differ
    have live := place_live wf place₁ reads
    rw [same] at place₁ live
    have holds := stored live (pathComponents path₁)
      ((touches.places _ (pathComponents_terminated path₁)).trans place₁)
    rw [readBack_of_holds wf.geometry r' touches.sound holds, Option.some.injEq, Option.some.injEq]
    constructor
    · intro equal
      exact .inr equal.symm
    · rintro (other | equal)
      · exact absurd other differ
      · exact equal.symm

theorem nineI_terminated : (0 : UInt8) ∉ [65, 66, 67, 68, 69, 70, 71, 72, 73] := by decide

theorem nineJ_terminated : (0 : UInt8) ∉ [65, 66, 67, 68, 69, 70, 71, 72, 74] := by decide

theorem other_terminated : (0 : UInt8) ∉ [66] := by decide

/-- `ABCDEFGHI`. -/
def nineI : CString := ⟨[65, 66, 67, 68, 69, 70, 71, 72, 73], nineI_terminated⟩

/-- `ABCDEFGHJ`. -/
def nineJ : CString := ⟨[65, 66, 67, 68, 69, 70, 71, 72, 74], nineJ_terminated⟩

/-- `B`. -/
def otherPath : CString := ⟨[66], other_terminated⟩

/-- The sample volume with the file `ABCDEFGHI`. -/
def withNine : Disk := ((sample.writeFile blank nineI [1]).getD (blank, false)).1

theorem withNine_wellFormed : sample.WellFormed withNine := sample_wellFormed [2] (by decide +kernel)

/-- A write to `B` keeps `ABCDEFGHI`. -/
theorem write_keeps_nine : ∃ d', sample.writeFile withNine otherPath [2] = some (d', true) ∧
    sample.readBack d' nineI = some (some (1, [1])) := by
  obtain ⟨d', written⟩ : ∃ d', sample.writeFile withNine otherPath [2] = some (d', true) :=
    exists_result (by decide +kernel)
  have kept := write_keeps_iff withNine_wellFormed nineI otherPath (by decide) 2 nineI.val otherPath.val
    (by decide) (by decide) (1, [1]) (by decide +kernel) [2] (by decide) written
  exact ⟨d', written, kept.1.mpr (.inl (by decide))⟩

/-- **Two names of nine letters are one**: a successful write to `ABCDEFGHJ` replaces `ABCDEFGHI`. -/
theorem long_names_alias : nineI.val.map upper ≠ nineJ.val.map upper ∧ sample.WellFormed withNine ∧
      sample.readBack withNine nineI = some (some (1, [1])) ∧
      ∃ d', sample.writeFile withNine nineJ [2] = some (d', true) ∧
        sample.readBack d' nineI = some (some (1, [2])) := by
  obtain ⟨d', written⟩ : ∃ d', sample.writeFile withNine nineJ [2] = some (d', true) :=
    exists_result (by decide +kernel)
  have replaced : ((sample.writeFile withNine nineJ [2]).bind fun result =>
      sample.readBack result.1 nineI) = some (some (1, [2])) := by decide +kernel
  rw [written, Option.bind_some] at replaced
  exact ⟨by decide, withNine_wellFormed, by decide +kernel, d', written, replaced⟩

end Volume

end LaylaOS.Fs
