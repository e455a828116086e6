/-
**Written files read back.**

On a well-formed volume, if `WriteFile` returns true then `ReadFile` of the same path should return the
bytes written. Both resolvers cut a path at slashes and after 12 bytes; a last component, cut this
way, that starts with 0xE5 makes an entry that counts as deleted.

* `writeFile_readFile` — when it does.
-/

import LaylaOS.Fs.Paths

namespace LaylaOS.Fs

open LaylaOS.Lib

open Image

namespace Volume

/-- **Written files read back**, on paths without `//`, exactly if the last component, as the resolvers
cut the path, does not start with 0xE5. -/
theorem writeFile_readFile {v : Volume} {d d' : Disk} (wf : v.WellFormed d) (path : CString)
    (noEmpty : ¬ [47, 47] <:+: path.val) (data : List UInt8) (word : data.length < 2 ^ 32)
    (written : v.writeFile d path data = some (d', true)) :
    (∃ bytes, v.readFile d' path = some (some (data.length, bytes)) ∧ bytes.take data.length = data) ↔
      ∀ last, (pathComponents path).getLast? = some last → last.head? ≠ some 0xE5 := by
  constructor
  · rintro ⟨bytes, read, -⟩ last final deleted
    obtain ⟨target, resolved, rest⟩ := Option.bind_eq_some_iff.mp read
    rcases target with _ | _ | e
    · cases rest
    · cases rest
    · exact resolvePathLoop_absent (findEntry_deleted deleted) (List.mem_of_getLast? final) _ e
        (resolvePath_entry.mp resolved)
  · intro valid
    obtain ⟨I', r', write⟩ := wf.write path word written
    rw [components_eq noEmpty] at write
    obtain ⟨D, name, old, i, O, found, last, dir, entry, vacates, result, parents⟩ :=
      write.written wf.regular.sound wf.regular.unique (pathComponents_terminated path) word
    obtain ⟨e, here, file, size, contents, inTable, strict⟩ :=
      result.stored fun deleted => valid name last ((toShortName_deleted name).mp deleted)
    have resolved : I'.resolve I'.root (pathComponents path) = some e := by
      rw [resolve_eq, parents (pathComponents_terminated path), found]
      exact here
    obtain ⟨bytes, ran, same⟩ := readChain_contents wf.geometry r' (.inl ⟨inTable, strict⟩)
    refine ⟨bytes, ?_, by rw [← size, same, contents]⟩
    have target := resolvePath_spec wf.geometry r' result.sound path
    rw [resolved, if_neg (fun empty => by rw [empty] at last; cases last)] at target
    simp [readFile, target, file, ran, size]

/-- `A`. -/
def letterPath : CString := ⟨[65], letter_terminated⟩

theorem writeFile_readFile_blank : ∃ d', sample.writeFile blank letterPath [1, 2, 3] = some (d', true) ∧
    ∃ bytes, sample.readFile d' letterPath = some (some (3, bytes)) ∧ bytes.take 3 = [1, 2, 3] := by
  obtain ⟨d', written⟩ : ∃ d', sample.writeFile blank letterPath [1, 2, 3] = some (d', true) :=
    exists_result (by decide +kernel)
  refine ⟨d', written, (writeFile_readFile blank_wellFormed letterPath (by decide) [1, 2, 3] (by decide)
    written).mpr ?_⟩
  intro last same
  have components : pathComponents letterPath = [[65]] := by decide
  rw [components] at same
  cases same
  decide

/-! ### Components of more than 12 bytes -/

/-- The last component of a path between its slashes. -/
def lastBetweenSlashes (path : List UInt8) : List UInt8 :=
  ((path.splitOn 47).filter (· ≠ [])).getLastD []

/-- `ABCDEFGH`, a directory. -/
def eightPath : CString := ⟨[65, 66, 67, 68, 69, 70, 71, 72], by decide⟩

/-- `ABCDEFGHIJKL` followed by 0xE5 and `X`: the first 12 bytes name the directory `ABCDEFGH`. -/
def longPath : CString :=
  ⟨[65, 66, 67, 68, 69, 70, 71, 72, 73, 74, 75, 76, 0xE5, 88], by decide⟩

/-- The sample volume with the directory `ABCDEFGH`. -/
def withDirectory : Disk := ((sample.makeDir blank eightPath).getD (blank, false)).1

/-- **The last component between slashes is not what counts**: the write to `longPath` returns
true and its file cannot be read. -/
theorem long_component_loses_file : ¬ ∀ (v : Volume) (d d' : Disk), v.WellFormed d → ∀ path : CString,
      ¬ [47, 47] <:+: path.val → (lastBetweenSlashes path.val).head? ≠ some 0xE5 →
      ∀ data : List UInt8, data.length < 2 ^ 32 → v.writeFile d path data = some (d', true) →
        ∃ bytes, v.readFile d' path = some (some (data.length, bytes)) ∧ bytes.take data.length = data := by
  intro claim
  have wf : sample.WellFormed withDirectory := sample_wellFormed [2, 3] (by decide +kernel)
  obtain ⟨d', written⟩ : ∃ d', sample.writeFile withDirectory longPath [1] = some (d', true) :=
    exists_result (by decide +kernel)
  have lost : ((sample.writeFile withDirectory longPath [1]).bind fun result =>
      sample.readFile result.1 longPath) = some none := by decide +kernel
  obtain ⟨bytes, read, -⟩ := claim sample withDirectory d' wf longPath (by decide) (by decide) [1]
    (by decide) written
  rw [written, Option.bind_some, read] at lost
  cases lost

end Volume

end LaylaOS.Fs
