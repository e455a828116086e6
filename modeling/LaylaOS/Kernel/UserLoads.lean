/-
**Loads through user pointers.**

`sys_write` and `sys_writefile` load data from an address in a register, and nine calls load a path. The
checks are written in three ways: `sys_write` compares `addr + n`, which may wrap, `sys_writefile` and
`sys_readfile` call `IsRing3Range`, and a path is otherwise checked at its first byte, however long it
is.

* `loads_in_window_iff` — the frames for which all loads stay in the window.
-/

import LaylaOS.Kernel.UserWindow
import LaylaOS.Fs.PathScan
import LaylaOS.Fs.WellFormed

namespace LaylaOS.Kernel

open LaylaOS.Lib LaylaOS.Fs

/-- The check of `sys_write`; the sum may wrap. -/
def writePasses (buf n : UInt32) : Prop := ¬ (buf < 0x00400000 ∨ buf + n > 0x00D00000)

namespace World

variable (w : World)

/-- User memory as a `const char*` sees it. -/
def textAt (addr : UInt32) (k : Nat) : UInt8 := w.memory (addr + UInt32.ofNat k)

/-- `ResolvePath` looks at the byte at `addr`. -/
def PathLoads (v : Volume) (path addr : UInt32) : Prop :=
  ∃ s, Reaches (v.pathStep w.disk (w.textAt path)) v.pathStart s ∧ addr = path + UInt32.ofNat s.index

/-- `ResolveParentDir` on a disk looks at the byte at `addr`. -/
def ParentLoads (v : Volume) (d : Disk) (path addr : UInt32) : Prop :=
  ∃ s, Reaches (v.parentStep d (w.textAt path)) v.parentStart s ∧ addr = path + UInt32.ofNat s.index

/-- `ReadFile` returns true. -/
def ReadsFile (v : Volume) (path : UInt32) : Prop :=
  ∃ (s : CString) (file : Nat × List UInt8),
    Reads (w.textAt path) 0 s.val ∧ v.readFile w.disk s = some (some file)

/-- What `sys_cp` loads: the source, and if it could be read the destination. -/
def CopyLoads (v : Volume) (src dst addr : UInt32) : Prop :=
  w.PathLoads v src addr ∨ (w.ReadsFile v src ∧ w.ParentLoads v w.disk dst addr)

/-- **The loads of a system call** through the addresses in its registers. `WriteFile` loads no more of
its data than `len` bytes. `sys_mv` looks at its source once more, on the disk that `WriteFile` has
left. -/
def LoadsByte (frame : Frame) (addr : UInt32) : Prop :=
  match frame.eax.toNat with
  | 4 => writePasses frame.ecx frame.edx ∧ (frame.ebx = 1 ∨ frame.ebx = 2) ∧
      ∃ k < frame.edx.toNat, addr = frame.ecx + UInt32.ofNat k
  | 5 => ∃ v ∈ w.fat32, userPointer frame.ebx ∧ frame.ecx = 1 ∧ w.ParentLoads v w.disk frame.ebx addr
  | 6 | 39 => ∃ v ∈ w.fat32, userPointer frame.ebx ∧ w.ParentLoads v w.disk frame.ebx addr
  | 11 | 40 | 41 => ∃ v ∈ w.fat32, userPointer frame.ebx ∧ w.PathLoads v frame.ebx addr
  | 90 => ∃ v ∈ w.fat32, userPointer frame.ebx ∧ userPointer frame.ecx ∧ w.heap ∧
      w.CopyLoads v frame.ebx frame.ecx addr
  | 91 => ∃ v ∈ w.fat32, userPointer frame.ebx ∧ userPointer frame.ecx ∧ w.heap ∧
      (w.CopyLoads v frame.ebx frame.ecx addr ∨
        (w.ReadsFile v frame.ebx ∧ ∃ d, w.ParentLoads v d frame.ebx addr))
  | 92 => ∃ v ∈ w.fat32, isRing3Range frame.ebx 1 ∧ isRing3Range frame.ecx frame.edx ∧
      (w.ParentLoads v w.disk frame.ebx addr ∨
        ∃ k < frame.edx.toNat, addr = frame.ecx + UInt32.ofNat k)
  | 93 => ∃ v ∈ w.fat32, frame.edx ≤ 65536 ∧ isRing3Range frame.ebx 1 ∧
      isRing3Range frame.ecx frame.edx ∧ w.heap ∧ w.PathLoads v frame.ebx addr
  | _ => False

/-- The string at the address has its terminator in the window. -/
def Terminated (path : UInt32) : Prop := ∃ k, path.toNat + k < 0x00D00000 ∧ w.textAt path k = 0

/-- The bytes from the address to the end of the window. -/
def windowText (path : UInt32) : List UInt8 :=
  (List.range (0x00D00000 - path.toNat)).map (w.textAt path)

/-- If there is no terminator in the window, the components there do not lead `ResolvePath` to its end. -/
def PathStays (v : Volume) (path : UInt32) : Prop :=
  ∀ text : CString, text.val = w.windowText path →
    v.StopsShort w.disk (decide (text.val.getLast? = some 47)) v.bpb.rootCluster (pathComponents text)

/-- If there is no terminator in the window, the components there do not lead `ResolveParentDir` to its
end. -/
def ParentStays (v : Volume) (path : UInt32) : Prop :=
  ∀ text : CString, text.val = w.windowText path →
    v.StopsShort w.disk false v.bpb.rootCluster (parentComponents text)

/-- The source of `sys_cp` stays in the window, and if it can be read the destination does. -/
def CopyStays (v : Volume) (src dst : UInt32) : Prop :=
  w.PathStays v src ∧ (w.ReadsFile v src → w.ParentStays v dst)

/-- **What keeps the loads of a call in the window**: no sum that wraps, and no path that leads to the end
of the window without a terminator. -/
def StaysInWindow (frame : Frame) : Prop :=
  match frame.eax.toNat with
  | 4 => writePasses frame.ecx frame.edx → (frame.ebx = 1 ∨ frame.ebx = 2) →
      frame.ecx.toNat + frame.edx.toNat < 2 ^ 32
  | 5 => ∀ v ∈ w.fat32, userPointer frame.ebx → frame.ecx = 1 → w.ParentStays v frame.ebx
  | 6 | 39 => ∀ v ∈ w.fat32, userPointer frame.ebx → w.ParentStays v frame.ebx
  | 11 | 40 | 41 => ∀ v ∈ w.fat32, userPointer frame.ebx → w.PathStays v frame.ebx
  | 90 | 91 => ∀ v ∈ w.fat32, userPointer frame.ebx → userPointer frame.ecx → w.heap →
      w.CopyStays v frame.ebx frame.ecx
  | 92 => ∀ v ∈ w.fat32, isRing3Range frame.ebx 1 → isRing3Range frame.ecx frame.edx →
      w.ParentStays v frame.ebx
  | 93 => ∀ v ∈ w.fat32, frame.edx ≤ 65536 → isRing3Range frame.ebx 1 →
      isRing3Range frame.ecx frame.edx → w.heap → w.PathStays v frame.ebx
  | _ => True

end World

variable {w : World} {v : Volume} {path addr : UInt32}

theorem inWindow_of_userPointer (user : userPointer path = true) : InWindow path := by
  rw [userPointer, Bool.and_eq_true, decide_eq_true_eq, decide_eq_true_eq, UInt32.le_iff_toNat_le,
    UInt32.lt_iff_toNat_lt] at user
  exact user

theorem inWindow_of_isRing3Range (accepted : isRing3Range path 1 = true) : InWindow path := by
  have first := (fitsWindow_of_isRing3Range accepted (le_refl 1)).inWindow Nat.zero_lt_one
  rwa [show path + UInt32.ofNat 0 = path from UInt32.add_zero path] at first

/-- **A scan** of a path that ends in the window stays in the window. -/
theorem scan_inWindow {Phase ρ : Type} {step : PathScan Phase → Progress (PathScan Phase) ρ}
    {start s : PathScan Phase} (scans : Scans step PathScan.index (w.textAt path))
    (user : InWindow path) (terminated : w.Terminated path) (first : start.index = 0)
    (reaches : Reaches step start s) : InWindow (path + UInt32.ofNat s.index) := by
  obtain ⟨stop, inside, zero⟩ := terminated
  have before : s.index ≤ stop := scans.index_le zero reaches (by rw [first]; exact Nat.zero_le _)
  have fits : FitsWindow path (stop + 1) := .inr ⟨user.1, inside⟩
  exact fits.inWindow (Nat.lt_succ_of_le before)

theorem mem_windowText {byte : UInt8} :
    byte ∈ w.windowText path ↔ ∃ k, path.toNat + k < 0x00D00000 ∧ w.textAt path k = byte := by
  unfold World.windowText
  simp only [List.mem_map, List.mem_range, Nat.lt_sub_iff_add_lt']

theorem windowText_getD (k : Nat) : (w.windowText path).getD k 0 =
    if path.toNat + k < 0x00D00000 then w.textAt path k else 0 := by
  rw [World.windowText, List.getD_eq_getElem?_getD, List.getElem?_map]
  split_ifs with inside
  · rw [List.getElem?_range (by omega)]
    rfl
  · rw [List.getElem?_eq_none (by rw [List.length_range]; omega)]
    rfl

theorem scan_inWindow_iff {Phase ρ : Type} {step : PathScan Phase → Progress (PathScan Phase) ρ}
    {start : PathScan Phase} (scans : Scans step PathScan.index (w.textAt path))
    (user : InWindow path) (first : start.index = 0) :
    (∀ addr, (∃ s, Reaches step start s ∧ addr = path + UInt32.ofNat s.index) → InWindow addr) ↔
      ∀ s, Reaches step start s → s.index < 0x00D00000 - path.toNat := by
  have small := user.2
  constructor
  · intro all s reaches
    by_contra far
    obtain ⟨u, reaches, there⟩ := scans.comes_by reaches (by omega) (Nat.le_of_not_lt far)
    have inside := (all _ ⟨u, reaches, rfl⟩).2
    rw [there, toNat_add_ofNat (by omega)] at inside
    omega
  · rintro before addr ⟨s, reaches, rfl⟩
    have inside := before s reaches
    have fits : FitsWindow path (s.index + 1) := .inr ⟨user.1, by omega⟩
    exact fits.inWindow (Nat.lt_succ_self _)

/-- **Where the scan of a path stays**, for either resolver: in the window if and only if there is a
terminator, or the text of the window stops it short. -/
theorem scan_stays_iff {Phase ρ : Type}
    {step : (Nat → UInt8) → PathScan Phase → Progress (PathScan Phase) ρ} {start : PathScan Phase}
    {result : CString → ρ} {short : CString → Prop} (scans : ∀ text, Scans (step text) PathScan.index text)
    (near : ∀ text text' s, text s.index = text' s.index → step text s = step text' s)
    (stops : ∀ text (path : CString), Reads text 0 path.val →
      EndsAt (step text) PathScan.index text start (result path) (short path))
    (user : InWindow path) (first : start.index = 0) :
    (∀ addr, (∃ s, Reaches (step (w.textAt path)) start s ∧ addr = path + UInt32.ofNat s.index) →
      InWindow addr) ↔ ∀ text : CString, text.val = w.windowText path → short text := by
  by_cases zero : 0 ∈ w.windowText path
  · refine iff_of_true ?_ fun text same => absurd (same ▸ zero) text.property
    rintro addr ⟨s, reaches, rfl⟩
    exact scan_inWindow (scans _) user (mem_windowText.mp zero) first reaches
  · -- the same text with a terminator at the end of the window
    have small := user.2
    have ends := stops (fun k => (w.windowText path).getD k 0) ⟨_, zero⟩ (reads_getD [] _)
    rw [scan_inWindow_iff (scans _) user first, ends.stays_iff (scans _) ?_ fun t before => ?_]
    · refine ⟨fun short text same => ?_, fun short => short _ rfl⟩
      obtain rfl : text = ⟨_, zero⟩ := Subtype.ext same
      exact short
    · intro k
      rw [windowText_getD]
      split_ifs with inside
      · exact iff_of_false (fun none => zero (mem_windowText.mpr ⟨k, inside, none⟩)) (by omega)
      · exact iff_of_true rfl (by omega)
    · refine near _ _ _ ?_
      rw [windowText_getD, if_pos (by omega)]

theorem pathLoads_iff (user : InWindow path) :
    (∀ addr, w.PathLoads v path addr → InWindow addr) ↔ w.PathStays v path :=
  scan_stays_iff (fun _ => Volume.pathStep_scans)
    (fun text text' s same => by unfold Volume.pathStep; rw [same])
    (fun _ path reads => Volume.pathStep_ends path reads) user rfl

theorem parentLoads_iff (user : InWindow path) :
    (∀ addr, w.ParentLoads v w.disk path addr → InWindow addr) ↔ w.ParentStays v path :=
  scan_stays_iff (fun _ => Volume.parentStep_scans)
    (fun text text' s same => by unfold Volume.parentStep; rw [same])
    (fun _ path reads => Volume.parentStep_ends path reads) user rfl

theorem copyLoads_iff {src dst : UInt32} (user : InWindow src) (user' : InWindow dst) :
    (∀ addr, w.CopyLoads v src dst addr → InWindow addr) ↔ w.CopyStays v src dst := by
  unfold World.CopyLoads World.CopyStays
  rw [← pathLoads_iff user, ← parentLoads_iff user']
  refine ⟨fun all => ⟨fun addr load => all addr (.inl load),
    fun reads addr load => all addr (.inr ⟨reads, load⟩)⟩, fun stays addr => ?_⟩
  rintro (load | ⟨reads, load⟩)
  · exact stays.1 addr load
  · exact stays.2 reads addr load

theorem terminated_of_readsFile (user : InWindow path) (stays : w.PathStays v path)
    (reads : w.ReadsFile v path) : w.Terminated path := by
  obtain ⟨text, file, spelled, result⟩ := reads
  obtain ⟨target, found⟩ : ∃ target, v.resolvePath w.disk text = some (some target) := by
    unfold Volume.readFile at result
    cases resolved : v.resolvePath w.disk text with
    | none => simp [resolved] at result
    | some found =>
      cases found with
      | none => simp [resolved] at result
      | some target => exact ⟨target, rfl⟩
  obtain ⟨s, reaches, last, -⟩ := Volume.pathStep_ends text spelled
  rw [found] at last
  have before := (scan_inWindow_iff Volume.pathStep_scans user rfl).mp ((pathLoads_iff user).mpr stays) s
    reaches
  exact ⟨s.index, by omega, Volume.pathStep_found last⟩

theorem moveLoads_iff {src dst : UInt32} (user : InWindow src) (user' : InWindow dst) :
    (∀ addr, w.CopyLoads v src dst addr ∨ (w.ReadsFile v src ∧ ∃ d, w.ParentLoads v d src addr) →
      InWindow addr) ↔ w.CopyStays v src dst := by
  rw [← copyLoads_iff user user']
  refine ⟨fun all addr load => all addr (.inl load), fun stays addr => ?_⟩
  rintro (load | ⟨reads, d, s, reaches, rfl⟩)
  · exact stays addr load
  · have source := ((copyLoads_iff user user').mp stays).1
    exact scan_inWindow Volume.parentStep_scans user (terminated_of_readsFile user source reads) rfl reaches

theorem storeLoads_iff {buf n : UInt32} (user : InWindow path) (data : isRing3Range buf n = true) :
    (∀ addr, (w.ParentLoads v w.disk path addr ∨ ∃ k < n.toNat, addr = buf + UInt32.ofNat k) →
      InWindow addr) ↔ w.ParentStays v path := by
  rw [← parentLoads_iff user]
  refine ⟨fun all addr load => all addr (.inl load), fun stays addr => ?_⟩
  rintro (load | ⟨k, bound, rfl⟩)
  · exact stays addr load
  · exact (fitsWindow_of_isRing3Range data le_rfl).inWindow bound

theorem sysWrite_loads_iff {buf n : UInt32} (passes : writePasses buf n) :
    (∀ k < n.toNat, InWindow (buf + UInt32.ofNat k)) ↔ buf.toNat + n.toNat < 2 ^ 32 := by
  rw [writePasses, not_or, UInt32.lt_iff_toNat_lt, gt_iff_lt, UInt32.lt_iff_toNat_lt,
    UInt32.toNat_add] at passes
  have low : (0x00400000 : UInt32).toNat = 0x00400000 := rfl
  have high : (0x00D00000 : UInt32).toNat = 0x00D00000 := rfl
  rw [low, high] at passes
  constructor
  · intro all
    by_contra wraps
    have small := buf.toNat_lt
    -- the last address of all is among those loaded
    have last := all (2 ^ 32 - 1 - buf.toNat) (by omega)
    rw [InWindow, toNat_add_ofNat (by omega)] at last
    omega
  · intro fits k bound
    rw [Nat.mod_eq_of_lt fits] at passes
    have inside : FitsWindow buf n.toNat := .inr ⟨by omega, by omega⟩
    exact inside.inWindow bound

/-- Every byte that the call loads through a register is loaded from the window. -/
def LoadsInWindow (w : World) (frame : Frame) : Prop := ∀ addr, w.LoadsByte frame addr → InWindow addr

theorem sysWrite_loadsInWindow_iff {frame : Frame} (number : frame.eax = 4) :
    LoadsInWindow w frame ↔ (writePasses frame.ecx frame.edx → (frame.ebx = 1 ∨ frame.ebx = 2) →
      frame.ecx.toNat + frame.edx.toNat < 2 ^ 32) := by
  have loads : ∀ addr, w.LoadsByte frame addr ↔ writePasses frame.ecx frame.edx ∧
      (frame.ebx = 1 ∨ frame.ebx = 2) ∧ ∃ k < frame.edx.toNat, addr = frame.ecx + UInt32.ofNat k := by
    intro addr
    unfold World.LoadsByte
    rw [number]
    rfl
  constructor
  · intro all passes output
    refine (sysWrite_loads_iff passes).mp fun k bound => ?_
    exact all _ ((loads _).mpr ⟨passes, output, k, bound, rfl⟩)
  · intro fits addr load
    obtain ⟨passes, output, k, bound, rfl⟩ := (loads addr).mp load
    exact (sysWrite_loads_iff passes).mpr (fits passes output) k bound

theorem guarded_iff (guard : Prop) {loads : Volume → UInt32 → Prop} {stays : Volume → Prop}
    (each : guard → ∀ v, (∀ addr, loads v addr → InWindow addr) ↔ stays v) :
    (∀ addr, (∃ v ∈ w.fat32, guard ∧ loads v addr) → InWindow addr) ↔ ∀ v ∈ w.fat32, guard → stays v := by
  constructor
  · intro all v mounted passes
    exact (each passes v).mp fun addr load => all addr ⟨v, mounted, passes, load⟩
  · rintro all addr ⟨v, mounted, passes, load⟩
    exact (each passes v).mpr (all v mounted passes) addr load

/-- **Loads through user pointers**: all are in the window exactly if a `sys_write` that its check lets pass
has no sum that wraps, and every path that is looked at has its terminator in the window or leads nowhere
before the end of it. -/
theorem loads_in_window_iff (w : World) (frame : Frame) : LoadsInWindow w frame ↔ w.StaysInWindow frame := by
  by_cases write : frame.eax = 4
  · rw [sysWrite_loadsInWindow_iff write, World.StaysInWindow, write]
    rfl
  unfold LoadsInWindow World.LoadsByte World.StaysInWindow
  split <;> rename_i number
  · exact absurd (UInt32.toNat_inj.mp number) write
  · simpa only [and_assoc, and_imp] using guarded_iff (userPointer frame.ebx = true ∧ frame.ecx = 1)
      fun passes v => parentLoads_iff (inWindow_of_userPointer passes.1)
  iterate 2
    · exact guarded_iff _ fun passes v => parentLoads_iff (inWindow_of_userPointer passes)
  iterate 3
    · exact guarded_iff _ fun passes v => pathLoads_iff (inWindow_of_userPointer passes)
  · simpa only [and_assoc, and_imp] using
      guarded_iff (userPointer frame.ebx = true ∧ userPointer frame.ecx = true ∧ w.heap = true)
        fun passes v => copyLoads_iff (inWindow_of_userPointer passes.1) (inWindow_of_userPointer passes.2.1)
  · simpa only [and_assoc, and_imp] using
      guarded_iff (userPointer frame.ebx = true ∧ userPointer frame.ecx = true ∧ w.heap = true)
        fun passes v => moveLoads_iff (inWindow_of_userPointer passes.1) (inWindow_of_userPointer passes.2.1)
  · simpa only [and_assoc, and_imp] using
      guarded_iff (isRing3Range frame.ebx 1 = true ∧ isRing3Range frame.ecx frame.edx = true)
        fun passes v => storeLoads_iff (inWindow_of_isRing3Range passes.1) passes.2
  · simpa only [and_assoc, and_imp] using
      guarded_iff (frame.edx ≤ 65536 ∧ isRing3Range frame.ebx 1 = true ∧
          isRing3Range frame.ecx frame.edx = true ∧ w.heap = true)
        fun passes v => pathLoads_iff (inWindow_of_isRing3Range passes.2.1)
  · exact iff_of_true (fun addr none => absurd none id) trivial

/-- A world with the sample volume, and one byte everywhere in user memory. -/
def filled (byte : UInt8) : World where
  fat32 := some sample
  disk := blank
  heap := true
  stale _ := 0
  text _ := ⟨[], empty_terminated⟩
  memory _ := byte
  scheduler := Scheduler.init
  keys := ⟨[], no_keys⟩
  deaths _ := none
  terminal := true
  network _ := 0

/-- `ls` of `/A` at the start of the window. -/
theorem ls_loads_in_window :
    let w : World := { filled 65 with memory := fun addr => if addr = 0x00400000 then 47
      else if addr = 0x00400001 then 65 else 0 }
    LoadsInWindow w ⟨40, 0x00400000, 0, 0⟩ := by
  intro w
  refine (loads_in_window_iff w ⟨40, 0x00400000, 0, 0⟩).mpr fun v _ _ text same => ?_
  have ends : 0 ∈ w.windowText 0x00400000 := mem_windowText.mpr ⟨2, by decide, rfl⟩
  exact absurd (same ▸ ends) text.property

/-- A write of 0xFF300000 bytes from 0x00D00000 on, just behind the window, and `ls` of a path at the last
byte of the window that has no terminator there. -/
theorem loads_beyond_window : ¬ LoadsInWindow (filled 0) ⟨4, 1, 0x00D00000, 0xFF300000⟩ ∧
      ¬ LoadsInWindow (filled 47) ⟨40, 0x00CFFFFF, 0, 0⟩ := by
  constructor
  · rw [sysWrite_loadsInWindow_iff rfl]
    intro fits
    exact absurd (fits (by unfold writePasses; decide) (.inl rfl)) (by decide)
  · intro all
    have load : (filled 47).PathLoads sample 0x00CFFFFF 0x00D00000 := by
      refine ⟨⟨1, sample.bpb.rootCluster, .slashes⟩, ?_, rfl⟩
      refine .head ((Volume.pathStep_start 0 _).trans (if_neg (by decide))) (.single ?_)
      exact Volume.pathStep_slash _ 0 rfl
    exact absurd (all _ ⟨sample, rfl, rfl, load⟩).2 (by decide)

end LaylaOS.Kernel
