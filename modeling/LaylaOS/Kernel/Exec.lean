/-
**What `sys_exec` reports.**

`sys_exec` takes the next process number, makes a process and hands it to `AddProcess`, which drops it
without a word if the table is full. The table has 16 slots, and no slot is ever given back. The number
is returned all the same.

* `exec_truthful_iff` — when the number that `sys_exec` returns stands for the new process.
-/

import LaylaOS.Kernel.Syscall
import LaylaOS.Fs.WellFormed

namespace LaylaOS.Kernel

open LaylaOS.Lib LaylaOS.Fs

/-- `Process::Process`: the fields the scheduler uses, for a kernel stack at an address and the page
directory it is given. The frame for the first `iret` is 18 words long. -/
def newProcess (pid kernelStack : Nat) (pageDir : Option Nat) : Process where
  pid := pid
  state := .ready
  esp := kernelStack + 4096 - 72
  pageDir := pageDir
  exitCode := 0
  parentPid := -1
  waitPid := -1
  kernelStack := kernelStack

namespace World

variable (w : World)

/-- The child of the calling process. -/
def child (kernelStack : Nat) (pageDir : Option Nat) : Process :=
  let child := newProcess (w.scheduler.nextPID % 2 ^ 32).toNat kernelStack pageDir
  match w.scheduler.getActive with
  | none => child
  | some caller => { child with parentPid := toInt32 caller.pid }

/-- `sys_exec`: the result and the process table. `new Process` is given a kernel stack and a page
directory. The call is one step here, although its gate is a trap gate and the timer may switch away. -/
def exec (path : UInt32) (kernelStack : Nat) (pageDir : Option Nat) : Option (UInt32 × Scheduler) :=
  if path = 0 then some (0xFFFFFFFF, w.scheduler)
  else
    match w.fat32 with
    | none => some (0xFFFFFFFF, w.scheduler)
    | some v =>
      if userPointer path then
        (v.readFile w.disk (w.text path)).map fun file =>
          match file with
          | none => (0xFFFFFFFF, w.scheduler)
          | some _ => (UInt32.ofInt w.scheduler.nextPID,
              w.scheduler.addProcess (w.child kernelStack pageDir))
      else some (0xFFFFFFFF, w.scheduler)

theorem exec_eax (path : UInt32) (kernelStack : Nat) (pageDir : Option Nat) :
    (w.exec path kernelStack pageDir).map Prod.fst = (w.sysExec path).map Outcome.eax := by
  unfold exec sysExec withPath
  by_cases null : path = 0
  · rw [if_pos null, if_pos null]
    rfl
  · rw [if_neg null, if_neg null]
    cases w.fat32 with
    | none => rfl
    | some v =>
      by_cases user : userPointer path = true
      · simp only [user, if_true, Option.map_map]
        congr 1
        funext file
        cases file <;> rfl
      · simp only [user]
        rfl

/-- The file of the path is there and has been read. -/
def Loads (path : UInt32) : Prop :=
  path ≠ 0 ∧ userPointer path = true ∧ ∃ v file, w.fat32 = some v ∧
    v.readFile w.disk (w.text path) = some (some file)

variable {w} in
theorem exec_of_loads {path : UInt32} {kernelStack : Nat} {pageDir : Option Nat}
    (loads : w.Loads path) : w.exec path kernelStack pageDir = some (UInt32.ofInt w.scheduler.nextPID,
        w.scheduler.addProcess (w.child kernelStack pageDir)) := by
  obtain ⟨null, user, v, file, mounted, read⟩ := loads
  rw [exec, if_neg null, mounted]
  simp only [user, if_true]
  rw [read]
  rfl

theorem exec_cases {path : UInt32} {kernelStack : Nat} {pageDir : Option Nat}
    {result : UInt32 × Scheduler} (ran : w.exec path kernelStack pageDir = some result) :
    (¬ w.Loads path ∧ result = (0xFFFFFFFF, w.scheduler)) ∨
      (w.Loads path ∧ result = (UInt32.ofInt w.scheduler.nextPID,
        w.scheduler.addProcess (w.child kernelStack pageDir))) := by
  unfold exec at ran
  by_cases null : path = 0
  · rw [if_pos null, Option.some.injEq] at ran
    exact .inl ⟨fun loads => loads.1 null, ran.symm⟩
  · rw [if_neg null] at ran
    cases mounted : w.fat32 with
    | none =>
      rw [mounted, Option.some.injEq] at ran
      refine .inl ⟨?_, ran.symm⟩
      rintro ⟨-, -, v, file, mounted', -⟩
      rw [mounted] at mounted'
      cases mounted'
    | some v =>
      simp only [mounted] at ran
      by_cases user : userPointer path = true
      · rw [if_pos user] at ran
        obtain ⟨file, read, same⟩ := Option.map_eq_some_iff.mp ran
        cases file with
        | none =>
          refine .inl ⟨?_, same.symm⟩
          rintro ⟨-, -, v', file, mounted', read'⟩
          rw [mounted] at mounted'
          cases mounted'
          rw [read] at read'
          cases read'
        | some file => exact .inr ⟨⟨null, user, v, file, mounted, read⟩, same.symm⟩
      · rw [if_neg user, Option.some.injEq] at ran
        exact .inl ⟨fun loads => user loads.2.1, ran.symm⟩

end World

/-! ### Reachable tables -/

/-- What happens to the process table. -/
inductive TableEvent
  /-- `sys_exec`, with the memory that `new Process` gets, in whatever the world is then. -/
  | exec (w : World) (path : UInt32) (kernelStack : Nat) (pageDir : Option Nat)
  /-- An exit, a `Schedule` call or another event that adds no process. -/
  | other (event : Event) (noAdd : ∀ p, event ≠ .add p)

namespace Scheduler

/-- The world with this process table. -/
def within (s : Scheduler) (w : World) : World := { w with scheduler := s }

/-- One event. A call that does not return has not reached the table. -/
def tableStep (s : Scheduler) : TableEvent → Scheduler
  | .exec w path kernelStack pageDir =>
    (((s.within w).exec path kernelStack pageDir).map Prod.snd).getD s
  | .other event _ => s.step event

/-- The table when the shell has been added. -/
def boot (kernelStack : Nat) (pageDir : Option Nat) : Scheduler :=
  init.addProcess (newProcess 1 kernelStack pageDir)

/-- The process numbers, slot by slot. -/
def pids (s : Scheduler) : List Nat := s.processes.map Process.pid

/-- **The processes are numbered from 1 on**, and there are 16 at most. -/
structure Numbered (s : Scheduler) : Prop where
  pids : s.pids = (List.range s.processes.length).map (· + 1)
  bound : s.processes.length ≤ maxProcesses

theorem pids_modify (s : Scheduler) (index : Nat) (change : Process → Process)
    (keeps : ∀ p, (change p).pid = p.pid) : (s.modify index change).pids = s.pids := by
  refine List.ext_getElem? fun slot => ?_
  simp only [pids, List.getElem?_map, processes_modify, Option.map_map]
  congr 1
  funext p
  simp only [Function.comp_apply]
  split
  · exact keeps p
  · rfl

theorem pids_modifyActive (s : Scheduler) {change : Process → Process}
    (keeps : ∀ p, (change p).pid = p.pid) : (s.modifyActive change).pids = s.pids := by
  unfold modifyActive
  split
  · rfl
  · exact s.pids_modify _ _ keeps

theorem pids_wakeParent (s : Scheduler) (pid : Int) : (s.wakeParent pid).pids = s.pids := by
  simp only [pids, wakeParent, List.map_map]
  refine List.map_congr_left fun p _ => ?_
  simp only [Function.comp_apply]
  split <;> rfl

theorem pids_schedule (s : Scheduler) (esp : Nat) : (s.schedule esp).2.pids = s.pids := by
  have saved : (s.save esp).pids = s.pids := by
    unfold save
    split
    · rfl
    · split
      · exact s.pids_modify _ _ fun _ => rfl
      · rfl
  rw [schedule_snd]
  split
  · exact saved
  · rename_i index _
    rw [← saved, dispatch]
    split
    · rfl
    · exact (s.save esp).pids_modify index (fun p => { p with state := .running }) fun _ => rfl

theorem pids_step (s : Scheduler) {event : Event} (noAdd : ∀ p, event ≠ .add p) :
    (s.step event).pids = s.pids := by
  cases event with
  | tick esp => exact s.pids_schedule esp
  | block waitPid => exact s.pids_modifyActive fun _ => rfl
  | wake pid => exact s.pids_wakeParent pid
  | resume => exact s.pids_modifyActive fun _ => rfl
  | exit code esp =>
    refine (pids_schedule _ esp).trans ?_
    unfold markDead
    split
    · rfl
    · exact (pids_wakeParent _ _).trans (s.pids_modifyActive fun _ => rfl)
  | add p => exact absurd rfl (noAdd p)

theorem pids_length (s : Scheduler) : s.pids.length = s.processes.length := List.length_map _

namespace Numbered

variable {s : Scheduler} (numbered : s.Numbered)
include numbered

omit numbered in
theorem congr {t : Scheduler} (numbered : s.Numbered) (same : t.pids = s.pids) : t.Numbered := by
  have length : t.processes.length = s.processes.length := by
    rw [← pids_length, same, pids_length]
  exact ⟨by rw [same, length]; exact numbered.pids, length ▸ numbered.bound⟩

theorem nextPID_eq : s.nextPID = (s.processes.length : Int) + 1 := by
  -- the loop over the first numbers has the last of them as its greatest
  have greatest : ∀ n ≤ maxProcesses, ((List.range n).map (· + 1)).foldl
      (fun greatest pid => if greatest < toInt32 pid then toInt32 pid else greatest) 0 = (n : Int) := by
    intro n bound
    induction n with
    | zero => rfl
    | succ n ih =>
      unfold maxProcesses at bound ih
      have value : toInt32 (n + 1) = (n + 1 : Nat) := by
        unfold toInt32
        rw [if_pos (by omega), Nat.mod_eq_of_lt (by omega)]
      rw [List.range_succ, List.map_append, List.foldl_append, ih (by omega)]
      show (if (n : Int) < toInt32 (n + 1) then toInt32 (n + 1) else (n : Int)) = _
      rw [value, if_pos (by omega)]
  have loop := greatest _ numbered.bound
  rw [← numbered.pids, Scheduler.pids, List.foldl_map] at loop
  rw [nextPID, loop]

theorem pid_le {p : Process} (member : p ∈ s.processes) : p.pid ≤ s.processes.length := by
  have listed : p.pid ∈ s.pids := List.mem_map_of_mem member
  rw [numbered.pids] at listed
  obtain ⟨index, inside, same⟩ := List.mem_map.mp listed
  have := List.mem_range.mp inside
  omega

theorem addProcess {p : Process} (next : p.pid = s.processes.length + 1) : (s.addProcess p).Numbered := by
  unfold Scheduler.addProcess
  split
  · exact numbered
  · rename_i room
    refine ⟨?_, ?_⟩
    · simp only [Scheduler.pids, List.map_append, List.length_append, List.range_succ,
        List.map_cons, List.map_nil, List.length_cons, List.length_nil, next]
      exact congrArg (· ++ _) numbered.pids
    · rw [List.length_append, List.length_singleton]
      omega

end Numbered

theorem child_pid {s : Scheduler} (numbered : s.Numbered) (w : World) (kernelStack : Nat)
    (pageDir : Option Nat) :
    ((s.within w).child kernelStack pageDir).pid = s.processes.length + 1 := by
  have pid : ((s.within w).child kernelStack pageDir).pid = (s.nextPID % 2 ^ 32).toNat := by
    unfold World.child
    simp only
    split <;> rfl
  have bound := numbered.bound
  unfold maxProcesses at bound
  rw [pid, numbered.nextPID_eq]
  omega

theorem Numbered.tableStep {s : Scheduler} (numbered : s.Numbered) (event : TableEvent) :
    (s.tableStep event).Numbered := by
  cases event with
  | exec w path kernelStack pageDir =>
    show ((((s.within w).exec path kernelStack pageDir).map Prod.snd).getD s).Numbered
    cases ran : (s.within w).exec path kernelStack pageDir with
    | none => exact numbered
    | some result =>
      rw [Option.map_some, Option.getD_some]
      rcases (s.within w).exec_cases ran with ⟨-, rfl⟩ | ⟨-, rfl⟩
      · exact numbered
      · exact numbered.addProcess (child_pid numbered w kernelStack pageDir)
  | other event noAdd => exact numbered.congr (s.pids_step noAdd)

theorem boot_numbered (kernelStack : Nat) (pageDir : Option Nat) :
    (boot kernelStack pageDir).Numbered := ⟨rfl, show 1 ≤ 16 by decide⟩

theorem reachable_numbered (kernelStack : Nat) (pageDir : Option Nat) (events : List TableEvent) :
    (events.foldl tableStep (boot kernelStack pageDir)).Numbered :=
  List.foldlRecOn events tableStep (boot_numbered kernelStack pageDir)
    fun _ numbered event _ => numbered.tableStep event

/-! ### The report -/

/-- **A truthful report**: a number stands for one process of the table, the new one, which is `READY`
and the child of the caller; after -1 the table is as it was. -/
def Truthful (s : Scheduler) (result : UInt32 × Scheduler) : Prop :=
  (result.1 ≠ 0xFFFFFFFF → ∃ child, result.2.processes = s.processes ++ [child] ∧
    result.2.processes.filter (·.pid == result.1.toNat) = [child] ∧ child.state = .ready ∧
    ∀ caller ∈ s.getActive, child.parentPid = toInt32 caller.pid) ∧
  (result.1 = 0xFFFFFFFF → result.2 = s)

theorem Numbered.returned {s : Scheduler} (numbered : s.Numbered) :
    (UInt32.ofInt s.nextPID).toNat = s.processes.length + 1 := by
  have bound := numbered.bound
  unfold maxProcesses at bound
  rw [numbered.nextPID_eq, UInt32.ofInt, UInt32.toNat_ofNat']
  omega

theorem truthful_iff {s : Scheduler} (numbered : s.Numbered) (w : World) (kernelStack : Nat)
    (pageDir : Option Nat) :
    Truthful s (UInt32.ofInt s.nextPID, s.addProcess ((s.within w).child kernelStack pageDir)) ↔
      s.processes.length < maxProcesses := by
  have bound := numbered.bound
  have number := numbered.returned
  have positive : UInt32.ofInt s.nextPID ≠ 0xFFFFFFFF := by
    intro same
    rw [same] at number
    have := number.symm.trans (by decide : (0xFFFFFFFF : UInt32).toNat = 4294967295)
    unfold maxProcesses at bound
    omega
  constructor
  · rintro ⟨told, -⟩
    by_contra full
    obtain ⟨child, appended, -⟩ := told positive
    rw [addProcess, if_pos (by omega)] at appended
    exact absurd (List.append_right_eq_self.mp appended.symm) (List.cons_ne_nil _ _)
  · intro room
    refine ⟨fun _ => ⟨{ (s.within w).child kernelStack pageDir with state := .ready }, ?_, ?_, rfl, ?_⟩,
      fun failed => absurd failed positive⟩
    · rw [addProcess, if_neg (by omega)]
    · rw [addProcess, if_neg (by omega), List.filter_append, number]
      have before : s.processes.filter (·.pid == s.processes.length + 1) = [] := by
        refine List.filter_eq_nil_iff.mpr fun p member => ?_
        have := numbered.pid_le member
        rw [beq_iff_eq]
        omega
      rw [before, List.nil_append, List.filter_singleton]
      simp [child_pid numbered w kernelStack pageDir]
    · intro caller active
      have here : (s.within w).scheduler.getActive = some caller := active
      simp only [World.child, here]

/-- **`sys_exec` reports the truth exactly if the table has room** whenever the file was read. -/
theorem exec_truthful_iff (stack : Nat) (directory : Option Nat) (events : List TableEvent) (w : World)
    (path : UInt32) (kernelStack : Nat) (pageDir : Option Nat) :
    let s := events.foldl tableStep (boot stack directory)
    (∀ result, (s.within w).exec path kernelStack pageDir = some result → Truthful s result) ↔
      ((s.within w).Loads path → s.processes.length < maxProcesses) := by
  intro s
  have numbered : s.Numbered := reachable_numbered stack directory events
  constructor
  · intro truthful loads
    exact (truthful_iff numbered w kernelStack pageDir).mp (truthful _ (World.exec_of_loads loads))
  · intro room result ran
    rcases (s.within w).exec_cases ran with ⟨-, rfl⟩ | ⟨loads, rfl⟩
    · exact ⟨fun number => absurd rfl number, fun _ => rfl⟩
    · exact (truthful_iff numbered w kernelStack pageDir).mpr (room loads)

/-- A world with the file `A`, at whose path every user address points. -/
def shellWorld : World where
  fat32 := some sample
  disk := withLetter
  heap := true
  stale := fun _ => 0
  text := fun _ => ⟨[65], letter_terminated⟩
  memory := fun _ => 0
  scheduler := init
  keys := ⟨[], no_keys⟩
  deaths := fun _ => none
  terminal := false
  network := fun _ => 0

/-- `sys_exec` of the file `A`. -/
def execLetter : TableEvent := .exec shellWorld 0x00400000 0 none

theorem shellWorld_loads (s : Scheduler) : (s.within shellWorld).Loads 0x00400000 := by
  have read : ((sample.readFile withLetter ⟨[65], letter_terminated⟩).map Option.isSome) = some true := by
    decide +kernel
  obtain ⟨file, same, found⟩ := Option.map_eq_some_iff.mp read
  obtain ⟨file, rfl⟩ := Option.isSome_iff_exists.mp found
  exact ⟨by decide, by decide, sample, file, rfl, same⟩

theorem execLetter_ran (s : Scheduler) : (s.within shellWorld).exec 0x00400000 0 none =
    some (UInt32.ofInt s.nextPID, s.addProcess ((s.within shellWorld).child 0 none)) :=
  World.exec_of_loads (shellWorld_loads s)

theorem execLetter_length (n : Nat) (bound : n ≤ 15) :
    ((List.replicate n execLetter).foldl tableStep (boot 0 none)).processes.length = n + 1 := by
  induction n with
  | zero => rfl
  | succ n ih =>
    rw [List.replicate_succ', List.foldl_append, List.foldl_cons, List.foldl_nil]
    generalize List.foldl tableStep (boot 0 none) (List.replicate n execLetter) = s at ih ⊢
    have length := ih (by omega)
    show ((((s.within shellWorld).exec 0x00400000 0 none).map Prod.snd).getD s).processes.length = _
    rw [execLetter_ran, Option.map_some, Option.getD_some, addProcess, if_neg]
    · rw [List.length_append, length]
      rfl
    · rw [length, maxProcesses]
      omega

theorem exec_truthful_first : let s := boot 0 none
    Truthful s (UInt32.ofInt s.nextPID, s.addProcess ((s.within shellWorld).child 0 none)) :=
  (exec_truthful_iff 0 none [] shellWorld 0x00400000 0 none).mpr (fun _ => by decide) _ (execLetter_ran _)

/-- **The sixteenth call returns 17**, and no process has that number. -/
theorem sixteenth_exec_lies :
    ¬ ∀ (stack : Nat) (directory : Option Nat) (events : List TableEvent) (w : World) (path : UInt32)
      (kernelStack : Nat) (pageDir : Option Nat),
      let s := events.foldl tableStep (boot stack directory)
      ∀ result, (s.within w).exec path kernelStack pageDir = some result → Truthful s result := by
  intro claim
  let events := List.replicate 15 execLetter
  have truthful := claim 0 none events shellWorld 0x00400000 0 none _ (execLetter_ran _)
  have room := (truthful_iff (reachable_numbered 0 none events) shellWorld 0 none).mp truthful
  rw [execLetter_length 15 le_rfl] at room
  exact absurd room (by decide)

end Scheduler

end LaylaOS.Kernel
