/-
**Copying and moving files.**

`sys_cp` reads a file and writes it to a second path; `sys_mv` then deletes the first path, without
a look at whether the two paths name the same entry. A destination whose 8.3 name starts with 0xE5
is written to an entry that counts as deleted.

* `copy_move_iff` — when `sys_cp` and `sys_mv` keep the data.
-/

import LaylaOS.Kernel.UserWindow
import LaylaOS.Fs.Allocation
import LaylaOS.Fs.Holding

namespace LaylaOS.Fs

open LaylaOS.Lib

namespace Image

variable {I I' I'' : Image} {S T : List (List UInt8)} {data : List UInt8} {b : Bool}

/-- A write under a name of the directory `D` succeeds. -/
def CanStore (I : Image) (D : Nat) (data : List UInt8) : Option DirEntry → Prop
  | none => I.HasRoom D none [] data
  | some e => e.isDirectory = false ∧ I.HasRoom D (some e) (I.chain e.startCluster) data

/-- A write to a path succeeds: the parent resolves, the name is not that of a directory, and there
is room. -/
def Accepts (I : Image) (names : List (List UInt8)) (data : List UInt8) : Prop :=
  ∃ target ∈ I.resolveParent I.root names,
    I.CanStore target.1 data (I.lookup target.1 (toShortName target.2))

theorem Write.result_iff (write : Write I T data I' b) : b = true ↔ I.Accepts T data := by
  cases write with
  | unresolved found => simp [Accepts, found]
  | directory found entry directory => simp [Accepts, found, entry, CanStore, directory]
  | @store D i name old O _ _ found entry vacates store =>
    have room : b = true ↔ I.HasRoom D old O data := by
      cases store with
      | full noRoom _ => simp [noRoom]
      | short noRoom _ _ _ => simp [noRoom]
      | blocked noRoom _ _ _ => simp [noRoom]
      | done room _ _ _ _ => simp [room]
    cases vacates with
    | new => simp [Accepts, found, entry, CanStore, room]
    | old _ _ _ file => simp [Accepts, found, entry, CanStore, room, file]

theorem Holds.live {D : Nat} {name83 : Name} (holds : I.Holds S data)
    (place : I.place S = some (D, name83)) : name83 0 ≠ 0xE5 := by
  obtain ⟨e, found, -⟩ := holds
  rw [resolve_place, place, Option.bind_some] at found
  obtain ⟨-, live, name⟩ := lookup_mem found
  intro deleted
  have first : e.first = 0xE5 := (congrFun name 0).trans deleted
  rw [DirEntry.isDead_iff.mpr (.inr first)] at live
  cases live

/-- The last 8.3 name of the path does not start with 0xE5. -/
def LastLive (I : Image) (names : List (List UInt8)) : Prop :=
  ∀ place ∈ I.place names, place.2 0 ≠ 0xE5

instance (I : Image) (names : List (List UInt8)) : Decidable (I.LastLive names) :=
  inferInstanceAs (Decidable (∀ place ∈ I.place names, place.2 0 ≠ 0xE5))

section Transfer

variable (write : Write I T data I' true) (sound : I.Sound) (unique : I.UniqueNames)
  (endedS : ∀ n ∈ S, 0 ∉ n) (endedT : ∀ n ∈ T, 0 ∉ n) (holds : I.Holds S data)
  (size : data.length < 2 ^ 32)
include write sound unique endedS endedT holds size

/-- **After the write**: the source still holds the data, and so does the destination, unless its
name starts with 0xE5 and it does not resolve. -/
theorem Write.copied : I'.Sound ∧ I'.UniqueNames ∧ I'.Holds S data ∧
    (I.LastLive T → I'.Holds T data) ∧ (¬ I.LastLive T → I'.resolve I'.root T = none) := by
  obtain ⟨D, name83, place, touches, stored, lost⟩ := write.touches sound unique endedT size
  have placeT := (touches.places T endedT).trans place
  refine ⟨touches.sound, touches.unique, ?_, fun live => ?_, fun dead => ?_⟩
  · by_cases same : I.place S = some (D, name83)
    · exact stored (holds.live same) S ((touches.places S endedS).trans same)
    · exact touches.holds S data endedS holds same
  · exact stored (live _ place) T placeT
  · rw [resolve_place, placeT, Option.bind_some]
    refine lost ?_
    by_contra live
    refine dead fun place' member => ?_
    rw [place] at member
    cases member
    exact live

/-- **After the delete**: the source does not resolve; the destination holds the data, unless it was
the same place or its name starts with 0xE5, and then it does not resolve. -/
theorem Delete.moved (delete : Delete I' S I'' b) : I''.Sound ∧ I''.resolve I''.root S = none ∧
    (I.LastLive T ∧ I.place S ≠ I.place T → I''.Holds T data) ∧
    (¬ (I.LastLive T ∧ I.place S ≠ I.place T) → I''.resolve I''.root T = none) := by
  obtain ⟨sound', unique', holdsS, holdsT, lost⟩ := write.copied sound unique endedS endedT holds size
  obtain ⟨_, _, _, written, -⟩ := write.touches sound unique endedT size
  obtain ⟨D, name83, place, touches, gone⟩ := delete.touches sound' unique' endedS holdsS
  have placeS : I.place S = some (D, name83) := (written.places S endedS).symm.trans place
  have vanished : ∀ names, (∀ n ∈ names, 0 ∉ n) → I'.place names = some (D, name83) →
      I''.resolve I''.root names = none := by
    intro names ended here
    rw [resolve_place, touches.places names ended, here]
    exact gone
  refine ⟨touches.sound, vanished S endedS place, ?_, fun failed => ?_⟩
  · rintro ⟨live, other⟩
    refine touches.holds T data endedT (holdsT live) ?_
    rw [written.places T endedT, ← placeS]
    exact Ne.symm other
  · by_cases same : I.place S = I.place T
    · exact vanished T endedT ((written.places T endedT).trans (same.symm.trans placeS))
    · rw [touches.resolve endedT]
      · exact lost fun live => failed ⟨live, same⟩
      · rw [written.places T endedT, ← placeS]
        exact Ne.symm same

end Transfer

end Image

namespace Volume

variable {v : Volume} {d : Disk} {I : Image} {path : CString} {data : List UInt8}

/-- `ReadFile` of the path returns `data`. -/
def ReadsAs (v : Volume) (d : Disk) (path : CString) (data : List UInt8) : Prop :=
  v.readBack d path = some (some (data.length, data))

theorem ReadsAs.readFile (reads : v.ReadsAs d path data) :
    ∃ bytes, v.readFile d path = some (some (data.length, bytes)) ∧ bytes.take data.length = data := by
  obtain ⟨⟨size, bytes⟩, read, same⟩ : ∃ result, v.readFile d path = some (some result) ∧
      (result.1, result.2.take result.1) = (data.length, data) := by
    simpa [ReadsAs, readBack] using reads
  obtain ⟨rfl, same⟩ : size = data.length ∧ bytes.take size = data := by simpa using same
  exact ⟨bytes, read, same⟩

theorem ReadsAs.unique {data' : List UInt8} (reads : v.ReadsAs d path data) (reads' : v.ReadsAs d path data') :
    data = data' := by
  have same := reads.symm.trans reads'
  simp only [Option.some.injEq, Prod.mk.injEq] at same
  exact same.2

theorem readsAs_of_holds (g : v.Geometry) (r : v.Represents d I) (sound : I.Sound)
    (holds : I.Holds (pathComponents path) data) : v.ReadsAs d path data := by
  have file := holds.fileAt
  obtain ⟨e, found, -, readable, -⟩ := holds
  refine (readBack_spec g r sound path fun e' found' _ => ?_).trans (congrArg some file)
  rw [found] at found'
  cases found'
  exact readable

theorem not_readsAs_of_unresolved (g : v.Geometry) (r : v.Represents d I) (sound : I.Sound)
    (none : I.resolve I.root (pathComponents path) = none) : ¬ v.ReadsAs d path data := by
  intro reads
  have nothing : v.readBack d path = some (I.fileAt (pathComponents path)) :=
    readBack_spec g r sound path fun e found _ => by
      rw [none] at found
      cases found
  rw [Image.fileAt, none, Option.bind_none] at nothing
  cases reads.symm.trans nothing

theorem WellFormed.holds_of_read (wf : v.WellFormed d) {size : Nat} {bytes : List UInt8}
    (read : v.readFile d path = some (some (size, bytes))) : size ≤ bytes.length ∧
      (v.image d).Holds (pathComponents path) (bytes.take size) := by
  have file : some (some (size, bytes.take size)) = some ((v.image d).fileAt (pathComponents path)) := by
    refine Eq.trans ?_ (wf.readBack_eq path)
    rw [readBack, read]
    rfl
  rw [Option.some.injEq, Image.fileAt] at file
  obtain ⟨e, found, same⟩ := Option.bind_eq_some_iff.mp file.symm
  cases directory : e.isDirectory with
  | true =>
    rw [directory] at same
    cases same
  | false =>
    rw [directory, if_neg Bool.false_ne_true, Option.some.injEq, Prod.mk.injEq] at same
    have holds := wf.regular.holds (pathComponents_terminated path) found directory
    have length : e.size = ((v.image d).contents e).length := by
      obtain ⟨e', found', -, -, size', -⟩ := holds
      rw [found] at found'
      cases found'
      exact size'
    rw [same.1, same.2, List.length_take] at length
    rw [same.2] at holds
    exact ⟨by omega, holds⟩

end Volume

end LaylaOS.Fs

namespace LaylaOS.Kernel

open LaylaOS.Fs

namespace World

variable {w : World} {v : Volume} {src dst : UInt32} {size : Nat} {bytes : List UInt8}

/-- The pointers pass their checks and the buffer can be allocated. -/
def Ready (w : World) (src dst : UInt32) : Prop :=
  (userPointer src && userPointer dst && w.heap) = true

/-- `sys_cp`, if it returns 0, leaves the data at both paths. -/
def CopyKeeps (w : World) (v : Volume) (src dst : UInt32) (data : List UInt8) : Prop :=
  ∀ o, w.sysCp src dst = some o → o.eax = 0 →
    v.ReadsAs o.disk (w.text src) data ∧ v.ReadsAs o.disk (w.text dst) data

/-- Both paths lead to the same directory and the same 8.3 name. -/
def SameEntry (w : World) (v : Volume) (src dst : UInt32) : Prop :=
  (v.image w.disk).place (pathComponents (w.text src)) =
    (v.image w.disk).place (pathComponents (w.text dst))

instance (w : World) (v : Volume) (src dst : UInt32) : Decidable (w.SameEntry v src dst) :=
  inferInstanceAs (Decidable (_ = _))

/-- `sys_mv`, if it returns 0, leaves the data at the second path, and nothing at the first one
unless both name the same entry. -/
def MoveKeeps (w : World) (v : Volume) (src dst : UInt32) (data : List UInt8) : Prop :=
  ∀ o, w.sysMv src dst = some o → o.eax = 0 →
    v.ReadsAs o.disk (w.text dst) data ∧
      (¬ w.SameEntry v src dst → v.resolvePath o.disk (w.text src) = some none)

theorem buffer_eq (w : World) (all : size ≤ bytes.length) : w.buffer bytes size = bytes.take size := by
  refine List.ext_getElem (by simp [buffer, all]) fun k inside _ => ?_
  have bound : k < bytes.length := by
    simp only [buffer, List.length_map, List.length_range] at inside
    omega
  simp [buffer, List.getD_eq_getElem?_getD, List.getElem?_eq_getElem bound]

theorem copy_eq (read : v.readFile w.disk (w.text src) = some (some (size, bytes)))
    (all : size ≤ bytes.length) (fits : bytes.length ≤ 65536) :
    w.copy v (w.text src) (w.text dst) = v.writeFile w.disk (w.text dst) (bytes.take size) := by
  rw [copy, read]
  show (if 65536 < bytes.length then none else _) = _
  rw [if_neg (by omega), buffer_eq w all]

theorem failure_ne_zero : (0xFFFFFFFF : UInt32) ≠ 0 := by decide

theorem withPaths_zero_iff (mounted : w.fat32 = some v)
    {call : Volume → CString → CString → Option Outcome} (result : Outcome) (P : Disk → Prop)
    (ran : call v (w.text src) (w.text dst) = some result) :
    (∀ o, w.withPaths src dst call = some o → o.eax = 0 → P o.disk) ↔
      (w.Ready src dst → result.eax = 0 → P result.disk) := by
  unfold withPaths Ready
  rw [mounted]
  cases userPointer src && userPointer dst && w.heap with
  | true => simp [ran]
  | false =>
    have nonzero : w.fails.eax ≠ 0 := failure_ne_zero
    simp [nonzero]

section Files

variable (wf : v.WellFormed w.disk) (dstPath : ¬ [47, 47] <:+: (w.text dst).val)
  (read : v.readFile w.disk (w.text src) = some (some (size, bytes)))
  (fits : bytes.length ≤ 65536)
include wf dstPath read fits

theorem copy_write : ∃ d' I' b, v.Represents d' I' ∧
    (v.image w.disk).Write (pathComponents (w.text dst)) (bytes.take size) I' b ∧
    w.copy v (w.text src) (w.text dst) = some (d', b) ∧ (bytes.take size).length < 2 ^ 32 := by
  obtain ⟨all, -⟩ := wf.holds_of_read read
  have word : (bytes.take size).length < 2 ^ 32 := by
    rw [List.length_take]
    omega
  obtain ⟨d', I', b, ran, r', write⟩ :=
    Volume.writeFile_spec wf.geometry wf.represents wf.regular.sound (w.text dst) word
  rw [components_eq dstPath] at write
  exact ⟨d', I', b, r', write, (copy_eq read all fits).trans ran, word⟩

theorem copyKeeps_iff (mounted : w.fat32 = some v) : w.CopyKeeps v src dst (bytes.take size) ↔
    (w.Ready src dst → (v.image w.disk).Accepts (pathComponents (w.text dst)) (bytes.take size) →
      (v.image w.disk).LastLive (pathComponents (w.text dst))) := by
  obtain ⟨d', I', b, r', write, copied, word⟩ := copy_write wf dstPath read fits
  refine (withPaths_zero_iff mounted (status (d', b)) (fun d =>
    v.ReadsAs d (w.text src) (bytes.take size) ∧ v.ReadsAs d (w.text dst) (bytes.take size)) ?_).trans
    (imp_congr_right fun _ => ?_)
  · rw [copied]
    rfl
  · rw [← write.result_iff]
    cases b with
    | false => exact iff_of_true (fun zero => absurd zero failure_ne_zero) (fun true => by cases true)
    | true =>
      obtain ⟨sound', -, holdsS, holdsT, lost⟩ := write.copied wf.regular.sound wf.regular.unique
        (pathComponents_terminated _) (pathComponents_terminated _) (wf.holds_of_read read).2 word
      refine ⟨fun keeps _ => ?_, fun live _ => ?_⟩
      · by_contra dead
        exact Volume.not_readsAs_of_unresolved wf.geometry r' sound' (lost dead) (keeps rfl).2
      · exact ⟨Volume.readsAs_of_holds wf.geometry r' sound' holdsS,
          Volume.readsAs_of_holds wf.geometry r' sound' (holdsT (live rfl))⟩

theorem moveKeeps_iff (mounted : w.fat32 = some v) (srcPath : ¬ [47, 47] <:+: (w.text src).val) :
    w.MoveKeeps v src dst (bytes.take size) ↔
    (w.Ready src dst → (v.image w.disk).Accepts (pathComponents (w.text dst)) (bytes.take size) →
      (v.image w.disk).LastLive (pathComponents (w.text dst)) ∧ ¬ w.SameEntry v src dst) := by
  obtain ⟨d', I', b, r', write, copied, word⟩ := copy_write wf dstPath read fits
  have holds := (wf.holds_of_read read).2
  let kept : Disk → Prop := fun d => v.ReadsAs d (w.text dst) (bytes.take size) ∧
    (¬ w.SameEntry v src dst → v.resolvePath d (w.text src) = some none)
  cases b with
  | false =>
    refine (withPaths_zero_iff mounted ⟨0xFFFFFFFF, d', []⟩ kept ?_).trans (imp_congr_right fun _ => ?_)
    · rw [copied]
      rfl
    · rw [← write.result_iff]
      exact iff_of_true (fun zero => absurd zero failure_ne_zero) (fun true => by cases true)
  | true =>
    have sound' := (write.copied wf.regular.sound wf.regular.unique
      (pathComponents_terminated _) (pathComponents_terminated _) holds word).1
    obtain ⟨d₂, I₂, b₂, deleted, r₂, delete⟩ := Volume.deleteFile_spec wf.geometry r' sound' (w.text src)
    rw [components_eq srcPath] at delete
    obtain ⟨sound₂, gone, holdsT, lost⟩ := delete.moved write wf.regular.sound wf.regular.unique
      (pathComponents_terminated _) (pathComponents_terminated _) holds word
    refine (withPaths_zero_iff mounted ⟨0, d₂, []⟩ kept ?_).trans (imp_congr_right fun _ => ?_)
    · rw [copied]
      simp [deleted]
    · rw [← write.result_iff]
      refine ⟨fun keeps _ => ?_, fun safe _ => ⟨?_, fun _ => ?_⟩⟩
      · by_contra failed
        exact Volume.not_readsAs_of_unresolved wf.geometry r₂ sound₂ (lost failed) (keeps rfl).1
      · exact Volume.readsAs_of_holds wf.geometry r₂ sound₂ (holdsT (safe rfl))
      · have target := Volume.resolvePath_spec wf.geometry r₂ sound₂ (w.text src)
        rw [gone, Option.map_none, if_neg] at target
        · exact target
        · intro root
          obtain ⟨e, found, -⟩ := holds
          rw [root] at found
          cases found

end Files

/-- **Copying and moving keep the data exactly if**, where the write succeeds, the destination is
not a name that starts with 0xE5 and, for a move, not the source. -/
theorem copy_move_iff (src dst : UInt32) (mounted : w.fat32 = some v) (wf : v.WellFormed w.disk)
    (srcPath : ¬ [47, 47] <:+: (w.text src).val) (dstPath : ¬ [47, 47] <:+: (w.text dst).val)
    (read : v.readFile w.disk (w.text src) = some (some (size, bytes)))
    (fits : bytes.length ≤ 65536) :
    (w.CopyKeeps v src dst (bytes.take size) ↔ (w.Ready src dst →
        (v.image w.disk).Accepts (pathComponents (w.text dst)) (bytes.take size) →
        (v.image w.disk).LastLive (pathComponents (w.text dst)))) ∧
    (w.MoveKeeps v src dst (bytes.take size) ↔ (w.Ready src dst →
        (v.image w.disk).Accepts (pathComponents (w.text dst)) (bytes.take size) →
        (v.image w.disk).LastLive (pathComponents (w.text dst)) ∧ ¬ w.SameEntry v src dst)) :=
  ⟨copyKeeps_iff wf dstPath read fits mounted, moveKeeps_iff wf dstPath read fits mounted srcPath⟩

/-- The sample volume with the file `A`, and the two paths at two user addresses. -/
def paths (first second : CString) : World where
  fat32 := some sample
  disk := ((sample.writeFile blank ⟨[65], letter_terminated⟩ [1, 2, 3]).getD (blank, false)).1
  heap := true
  stale := fun _ => 0
  text := fun addr => if addr = 0x00400000 then first else second
  memory := fun _ => 0
  scheduler := Scheduler.init
  keys := ⟨[], by decide⟩
  deaths := fun _ => none
  terminal := false
  network := fun _ => 0

theorem paths_wellFormed (first second : CString) : sample.WellFormed (paths first second).disk := by
  have layout : (sample.image ((sample.writeFile blank ⟨[65], by decide⟩ [1, 2, 3]).getD
    (blank, false)).1).Layout [2] := by decide +kernel
  exact sample_wellFormed [2] layout

theorem paths_read (second : CString) : ∃ bytes,
    sample.readFile (paths ⟨[65], by decide⟩ second).disk ⟨[65], by decide⟩ = some (some (3, bytes)) ∧
      bytes.length ≤ 65536 := by
  have result : (sample.readFile ((sample.writeFile blank ⟨[65], by decide⟩ [1, 2, 3]).getD
      (blank, false)).1 ⟨[65], by decide⟩).map (·.map fun file => (file.1, file.2.length)) =
      some (some (3, 512)) := by decide +kernel
  obtain ⟨read, same, file⟩ := Option.map_eq_some_iff.mp result
  obtain ⟨⟨size, bytes⟩, rfl, both⟩ := Option.map_eq_some_iff.mp file
  rw [Prod.mk.injEq] at both
  obtain ⟨rfl, length⟩ := both
  exact ⟨bytes, same, length.trans_le (by decide)⟩

theorem copy_move_iff_two_paths : let w := paths ⟨[65], by decide⟩ ⟨[66], by decide⟩
    ∃ bytes, sample.readFile w.disk (w.text 0x00400000) = some (some (3, bytes)) ∧
      w.CopyKeeps sample 0x00400000 0x00400010 (bytes.take 3) ∧
      w.MoveKeeps sample 0x00400000 0x00400010 (bytes.take 3) := by
  intro w
  obtain ⟨bytes, read, fits⟩ := paths_read ⟨[66], by decide⟩
  have live : (sample.image w.disk).LastLive (pathComponents (w.text 0x00400010)) := by
    decide +kernel
  have other : ¬ w.SameEntry sample 0x00400000 0x00400010 := by decide +kernel
  obtain ⟨copy, move⟩ := copy_move_iff (w := w) 0x00400000 0x00400010 rfl (paths_wellFormed _ _)
    (by decide) (by decide) read fits
  exact ⟨bytes, read, copy.mpr fun _ _ => live, move.mpr fun _ _ => ⟨live, other⟩⟩

/-- **Moving a file onto itself loses it.** -/
theorem move_onto_itself_loses_file :
    ¬ ∀ (w : World) (v : Volume) (src dst : UInt32) (size : Nat) (bytes : List UInt8),
      w.fat32 = some v → v.WellFormed w.disk → ¬ [47, 47] <:+: (w.text src).val →
      ¬ [47, 47] <:+: (w.text dst).val →
      v.readFile w.disk (w.text src) = some (some (size, bytes)) → bytes.length ≤ 65536 →
        w.CopyKeeps v src dst (bytes.take size) ∧ w.MoveKeeps v src dst (bytes.take size) := by
  intro claim
  let path : CString := ⟨[65], by decide⟩
  obtain ⟨bytes, read, fits⟩ := paths_read path
  have move := (claim (paths path path) sample 0x00400000 0x00400000 3 bytes rfl
    (paths_wellFormed _ _) (by decide) (by decide) read fits).2
  have lost : ((paths path path).sysMv 0x00400000 0x00400000).map
      (fun o => (o.eax, sample.readBack o.disk path)) = some (0, some none) := by decide +kernel
  obtain ⟨o, ran, same⟩ := Option.map_eq_some_iff.mp lost
  rw [Prod.mk.injEq] at same
  cases (move o ran same.1).1.symm.trans same.2

end World

end LaylaOS.Kernel
