/-
**The buffer of `sys_readfile`, `sys_cp` and `sys_mv`.**

All three pass a buffer of 65536 bytes to `ReadFile`, which does not know its size. Whether the files of
the volume fit is decided by the calls that write them, and `sys_writefile` takes up to 0x00900000 bytes.

* `reads_fit_buffer` — a run of such calls.
-/

import LaylaOS.Fs.ReadLength
import LaylaOS.Kernel.CopyMove

namespace LaylaOS.Kernel

open LaylaOS.Lib LaylaOS.Fs

/-- The size of `new uint8_t[65536]`. -/
def bufferSize : Nat := 65536

/-- The system calls that change the volume: open, unlink, mkdir, cp, mv, writefile. -/
def fileCalls : List UInt32 := [5, 6, 39, 90, 91, 92]

/-- A system call that finds the disk `d` and leaves `d'`. -/
def FileCall (v : Volume) (d : Disk) (call : World × Frame) (d' : Disk) : Prop :=
  call.1.fat32 = some v ∧ call.1.disk = d ∧ call.2.eax ∈ fileCalls ∧
    ∃ o, dispatch call.1 call.2 = some o ∧ o.disk = d'

/-- The whole clusters that a buffer takes. -/
def bufferClusters (v : Volume) : Nat := bufferSize / v.clusterSize

/-- A `sys_writefile` with no more data than that. -/
def ShortWrite (v : Volume) (call : World × Frame) : Prop :=
  call.2.eax = 92 → call.2.edx.toNat ≤ bufferClusters v * v.clusterSize

/-! ### One call -/

/-- The call, if it returns, leaves a disk with the property. -/
def Leaves (P : Disk → Prop) (result : Option Outcome) : Prop := ∀ o, result = some o → P o.disk

namespace Leaves

variable {P : Disk → Prop} {w : World} {v : Volume}

theorem returns (here : P w.disk) (eax : UInt32) : Leaves P (some (w.returns eax)) := by
  rintro o ⟨⟩
  exact here

theorem map {result : Option (Disk × Bool)} {finish : Disk × Bool → Outcome}
    (disk : ∀ r, (finish r).disk = r.1) (each : ∀ r, result = some r → P r.1) :
    Leaves P (result.map finish) := by
  intro o ran
  obtain ⟨r, same, rfl⟩ := Option.map_eq_some_iff.mp ran
  rw [disk]
  exact each r same

theorem withPath (mounted : w.fat32 = some v) (here : P w.disk) (path : UInt32)
    {call : Volume → CString → Option Outcome} (each : ∀ path, Leaves P (call v path)) :
    Leaves P (w.withPath path call) := by
  unfold World.withPath
  rw [mounted]
  dsimp only
  split
  · exact each _
  · exact returns here _

theorem withPaths (mounted : w.fat32 = some v) (here : P w.disk) (src dst : UInt32)
    {call : Volume → CString → CString → Option Outcome}
    (each : ∀ src dst, Leaves P (call v src dst)) : Leaves P (w.withPaths src dst call) := by
  unfold World.withPaths
  rw [mounted]
  dsimp only
  split
  · exact each _ _
  · exact returns here _

end Leaves

/-- The disk holds a volume with small files. -/
def SmallDisk (v : Volume) (d : Disk) : Prop :=
  ∃ I, v.Represents d I ∧ I.Small (bufferClusters v)

section Step

variable {v : Volume} {w : World} (g : v.Geometry)
include g

theorem two_le_bufferClusters : 2 ≤ bufferClusters v := by
  obtain ⟨-, most, least⟩ := g.clusterSize_eq
  rw [bufferClusters, Nat.le_div_iff_mul_le (by omega)]
  unfold bufferSize
  omega

theorem smallDisk_call {d d' : Disk} (call : Call) {b : Bool} (small : SmallDisk v d)
    (fits : call.data.length ≤ bufferClusters v * v.clusterSize)
    (ran : v.call d call = some (d', b)) : SmallDisk v d' := by
  obtain ⟨I, r, small⟩ := small
  have room := two_le_bufferClusters g
  rw [r.clusterSize_eq] at fits
  obtain ⟨d₁, I', b', ran', r', small'⟩ := Volume.call_small g r small (by omega) call fits
  rw [ran] at ran'
  cases ran'
  exact ⟨I', r', small'⟩

theorem smallDisk_copy (small : SmallDisk v w.disk) {src dst : CString} {r : Disk × Bool}
    (ran : w.copy v src dst = some r) : SmallDisk v r.1 := by
  obtain ⟨I, represents, smallFiles⟩ := small
  obtain ⟨result, read, fits⟩ := Volume.readFile_small g represents smallFiles (two_le_bufferClusters g) src
  rw [World.copy, read] at ran
  cases result with
  | none =>
    cases ran
    exact ⟨I, represents, smallFiles⟩
  | some file =>
    obtain ⟨size, bytes⟩ := file
    obtain ⟨short, -⟩ := fits _ rfl
    have length : (w.buffer bytes size).length = size := by
      rw [World.buffer, List.length_map, List.length_range]
    have most : size ≤ bufferSize := by
      rw [← represents.clusterSize_eq] at short
      exact short.trans (Nat.div_mul_le_self _ _)
    have word : (w.buffer bytes size).length < 2 ^ 32 := by
      rw [length]
      exact lt_of_le_of_lt most (by decide)
    have ran : (if 65536 < bytes.length then none
        else v.writeFile w.disk dst (w.buffer bytes size)) = some r := ran
    split_ifs at ran
    refine smallDisk_call g (.writeFile dst (w.buffer bytes size) word) ⟨I, represents, smallFiles⟩ ?_ ran
    rw [represents.clusterSize_eq]
    show (w.buffer bytes size).length ≤ _
    rwa [length]

theorem fileCall_small {d d' : Disk} {call : World × Frame} (small : SmallDisk v d)
    (step : FileCall v d call d') (short : ShortWrite v call) : SmallDisk v d' := by
  obtain ⟨w, frame⟩ := call
  obtain ⟨mounted, rfl, number, o, ran, rfl⟩ := step
  have one : ∀ (call : Call) (r : Disk × Bool), call.data = [] → v.call w.disk call = some r →
      SmallDisk v r.1 := by
    intro call r empty ran
    exact smallDisk_call g call small (by rw [empty]; exact Nat.zero_le _) ran
  suffices Leaves (SmallDisk v) (dispatch w frame) from this o ran
  simp only [fileCalls, List.mem_cons, List.not_mem_nil, or_false] at number
  unfold dispatch
  rcases number with number | number | number | number | number | number <;> rw [number]
  · show Leaves _ (w.sysOpen frame.ebx frame.ecx)
    refine .withPath mounted small _ fun path => ?_
    split
    · exact .map (fun _ => rfl) fun r ran => one (.createFile path) r rfl ran
    · exact .returns small _
  · show Leaves _ (w.sysUnlink frame.ebx)
    refine .withPath mounted small _ fun path => ?_
    exact .map (fun _ => rfl) fun r ran => one (.deleteFile path) r rfl ran
  · show Leaves _ (w.sysMkdir frame.ebx)
    refine .withPath mounted small _ fun path => ?_
    exact .map (fun _ => rfl) fun r ran => one (.makeDir path) r rfl ran
  · show Leaves _ (w.sysCp frame.ebx frame.ecx)
    refine .withPaths mounted small _ _ fun src dst => ?_
    exact .map (fun _ => rfl) fun r ran => smallDisk_copy g small ran
  · show Leaves _ (w.sysMv frame.ebx frame.ecx)
    refine .withPaths mounted small _ _ fun src dst o ran => ?_
    obtain ⟨⟨d, ok⟩, copied, ran⟩ := Option.bind_eq_some_iff.mp ran
    have between : SmallDisk v d := smallDisk_copy g small copied
    cases ok with
    | false =>
      cases ran
      exact between
    | true =>
      obtain ⟨⟨d', b⟩, deleted, ran⟩ := Option.bind_eq_some_iff.mp ran
      cases ran
      exact smallDisk_call g (.deleteFile src) between (Nat.zero_le _) deleted
  · show Leaves _ (w.sysWritefile frame.ebx frame.ecx frame.edx)
    unfold World.sysWritefile
    rw [mounted]
    dsimp only
    split
    · refine .map (fun _ => rfl) fun r ran => ?_
      have length : ((List.range frame.edx.toNat).map fun k =>
          w.memory (frame.ecx + UInt32.ofNat k)).length = frame.edx.toNat := by
        rw [List.length_map, List.length_range]
      refine smallDisk_call g (.writeFile (w.text frame.ebx) _ ?_) small ?_ ran
      · rw [length]
        exact frame.edx.toNat_lt
      · exact length.trans_le (short number)
    · exact .returns small _

end Step

/-! ### Runs of calls -/

theorem smallDisk_of_wellFormed {v : Volume} {d : Disk} (wf : v.WellFormed d)
    (fits : ∀ D i e, (v.image d).IsFile D i e →
      ((v.image d).chain e.startCluster).length * v.clusterSize ≤ bufferSize) : SmallDisk v d := by
  obtain ⟨sound, strict, -, starts, sized, mark⟩ := wf.regular
  have positive : 0 < v.clusterSize := lt_of_lt_of_le (by decide) wf.geometry.clusterSize_eq.2.2
  refine ⟨v.image d, wf.represents, sound, mark, fun D i e is => ?_⟩
  have few := (Nat.le_div_iff_mul_le positive).mpr (fits D i e is)
  obtain ⟨dir, slot, named, -⟩ := is
  refine ⟨(sized D i e dir slot named).trans (Nat.mul_le_mul_right _ few), ?_⟩
  rcases starts D i e dir slot named with inTable | ⟨zero, -⟩
  · exact .inl ⟨inTable, strict _ _ (.entry dir slot named), few⟩
  · exact .inr (.inl zero)

/-- **The buffer suffices.** On a volume whose files fit the buffer, with all their clusters, and after
any file system calls of which no `sys_writefile` writes more than the buffer takes in whole clusters,
`ReadFile` returns for every path and stays within the buffer. -/
theorem reads_fit_buffer {v : Volume} {d d' : Disk} {calls : List (World × Frame)} (wf : v.WellFormed d)
    (fits : ∀ D i e, (v.image d).IsFile D i e →
      ((v.image d).chain e.startCluster).length * v.clusterSize ≤ bufferSize)
    (run : Steps (fun d call d' => FileCall v d call d' ∧ ShortWrite v call) d calls d')
    (path : CString) :
    ∃ result, v.readFile d' path = some result ∧ ∀ file ∈ result, file.2.length ≤ bufferSize := by
  have keeps : ∀ d call d', SmallDisk v d → FileCall v d call d' ∧ ShortWrite v call →
      SmallDisk v d' := fun d call d' small step => fileCall_small wf.geometry small step.1 step.2
  obtain ⟨I, r, small⟩ := run.invariant keeps (smallDisk_of_wellFormed wf fits)
  obtain ⟨result, read, short⟩ :=
    Volume.readFile_small wf.geometry r small (two_le_bufferClusters wf.geometry) path
  refine ⟨result, read, fun file member => (short file member).2.trans ?_⟩
  rw [← r.clusterSize_eq]
  exact Nat.div_mul_le_self _ _

/-! ### A short file and a long one -/

/-- Two sectors a cluster, one FAT copy of one sector, clusters 2 to 67, root directory at 2. -/
def roomy : Volume where
  partitionLba := 0
  bpb :=
    { bytesPerSector := 512
      sectorsPerCluster := 2
      reservedSectors := 1
      fatCount := 1
      totalSectors16 := 134
      totalSectors32 := 0
      fatSize32 := 1
      rootCluster := 2 }

theorem roomy_geometry : roomy.Geometry := ⟨⟨rfl, by decide, .inl rfl, by decide, by decide⟩, by decide⟩

theorem roomy_layout : (roomy.image blank).Layout [2] := by decide +kernel

theorem roomy_wellFormed : roomy.WellFormed blank :=
  ⟨roomy_geometry, fun two => absurd two (by decide), roomy_layout.regular⟩

theorem roomy_noFiles (D i : Nat) (e : DirEntry) : ¬ (roomy.image blank).IsFile D i e := by
  rintro ⟨dir, slot, named, -⟩
  have none : (roomy.image blank).entries [2] = [] := by decide +kernel
  have entry := Image.mem_entries (roomy_layout.isDir_mem dir) slot named
  rw [none] at entry
  exact absurd entry List.not_mem_nil

/-- A program with the path `A`. -/
def writer : World where
  fat32 := some roomy
  disk := blank
  heap := true
  stale _ := 0
  text _ := ⟨[65], letter_terminated⟩
  memory _ := 1
  scheduler := Scheduler.init
  keys := ⟨[], no_keys⟩
  deaths _ := none
  terminal := false
  network _ := 0

theorem roomy_accepts {data : List UInt8} (length : data.length = 65537) :
    (roomy.image blank).Accepts (parentComponents ⟨[65], letter_terminated⟩) data := by
  have absent : (roomy.image blank).lookup 2 (toShortName [65]) = none := by decide +kernel
  have free : (roomy.image blank).freeList.length = 65 := by decide +kernel
  have size : (roomy.image blank).clusterSize = 1024 := rfl
  have vacant : ((roomy.image blank).slots 2).any DirEntry.isDead = true := by decide +kernel
  refine ⟨(2, [65]), rfl, ?_⟩
  show (roomy.image blank).CanStore 2 data ((roomy.image blank).lookup 2 (toShortName [65]))
  rw [absent]
  unfold Image.CanStore Image.HasRoom
  rw [Image.free_nil, free, size, length]
  refine ⟨fun none => ?_, by decide, .inr (.inl vacant)⟩
  rw [none] at free
  cases free

/-- The data of the program. -/
def written (len : UInt32) : List UInt8 :=
  (List.range len.toNat).map fun k => writer.memory (0x00400000 + UInt32.ofNat k)

theorem written_length (len : UInt32) : (written len).length = len.toNat := by
  rw [written, List.length_map, List.length_range]

theorem writer_call (len : UInt32) (accepted : isRing3Range 0x00400000 len = true) :
    ∃ d' I' b, roomy.Represents d' I' ∧
      (roomy.image blank).Write (parentComponents ⟨[65], letter_terminated⟩) (written len) I' b ∧
      FileCall roomy blank (writer, ⟨92, 0x00400000, 0x00400000, len⟩) d' := by
  have word : (written len).length < 2 ^ 32 := by
    rw [written_length]
    exact len.toNat_lt
  obtain ⟨d', I', b, ran, r', write⟩ := Volume.writeFile_spec roomy_geometry
    roomy_wellFormed.represents roomy_wellFormed.regular.sound ⟨[65], letter_terminated⟩ word
  have number : (92 : UInt32) ∈ fileCalls := by decide
  refine ⟨d', I', b, r', write, rfl, rfl, number, World.status (d', b), ?_, rfl⟩
  have checked : (isRing3Range 0x00400000 1 && isRing3Range 0x00400000 len) = true := by
    rw [accepted]
    decide
  show (if (isRing3Range 0x00400000 1 && isRing3Range 0x00400000 len) = true then
    (roomy.writeFile blank ⟨[65], letter_terminated⟩ (written len)).map World.status
    else some writer.fails) = _
  rw [if_pos checked, ran]
  rfl

/-- A file of three bytes fits. -/
theorem short_file_fits : ∃ d', FileCall roomy blank (writer, ⟨92, 0x00400000, 0x00400000, 3⟩) d' ∧
      ∃ result, roomy.readFile d' ⟨[65], letter_terminated⟩ = some result ∧
        ∀ file ∈ result, file.2.length ≤ bufferSize := by
  obtain ⟨d', -, -, -, -, step⟩ := writer_call 3 (by decide)
  have short : ShortWrite roomy (writer, ⟨92, 0x00400000, 0x00400000, 3⟩) := fun _ => by decide
  exact ⟨d', step, reads_fit_buffer roomy_wellFormed (fun D i e is => absurd is (roomy_noFiles D i e))
    (.cons ⟨step, short⟩ (.nil d')) _⟩

/-- **A file of 65537 bytes**, written on an empty volume, does not fit the buffer. -/
theorem long_file_overruns : roomy.WellFormed blank ∧ (∀ D i e, ¬ (roomy.image blank).IsFile D i e) ∧
      ∃ d', FileCall roomy blank (writer, ⟨92, 0x00400000, 0x00400000, 65537⟩) d' ∧
        ∃ file, roomy.readFile d' ⟨[65], letter_terminated⟩ = some (some file) ∧
          bufferSize < file.2.length := by
  refine ⟨roomy_wellFormed, roomy_noFiles, ?_⟩
  let path : CString := ⟨[65], letter_terminated⟩
  have length : (written 65537).length = 65537 := written_length 65537
  have word : (written 65537).length < 2 ^ 32 := by
    rw [length]
    decide
  have regular := roomy_wellFormed.regular
  obtain ⟨d', I', b, r', write, step⟩ := writer_call 65537 (by decide)
  obtain rfl : b = true := write.result_iff.mpr (roomy_accepts length)
  obtain ⟨D, name83, place, touches, held, -⟩ := write.touches regular.sound regular.unique
    (parentComponents_terminated path) word
  obtain ⟨rfl, rfl⟩ : 2 = D ∧ toShortName [65] = name83 := Prod.mk.inj (Option.some.inj place)
  have holds := held (by decide) (pathComponents path) (touches.places _ (pathComponents_terminated path))
  have reads := Volume.readsAs_of_holds roomy_geometry r' touches.sound holds
  obtain ⟨result, read, same⟩ := Option.map_eq_some_iff.mp reads
  obtain ⟨file, returned, whole⟩ := Option.map_eq_some_iff.mp same
  refine ⟨d', step, file, returned ▸ read, ?_⟩
  have taken : (file.2.take file.1).length = 65537 := by rw [(Prod.mk.inj whole).2, length]
  rw [List.length_take] at taken
  unfold bufferSize
  omega

end LaylaOS.Kernel
