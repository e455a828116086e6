/-
**The process table and the round-robin scheduler** (`kernel/scheduler.cpp`, `kernel/process.h`).

The table is the list `processes[0 .. process_count)`; `current` is `current_index`, with `none`
for the constructor's `-1`. The TSS kernel stack and the loaded page directory are the two pieces
of processor state `Schedule` writes, so they are fields of the scheduler state.
-/

import LaylaOS.Lib.Steps

namespace LaylaOS.Kernel

/-- `enum ProcessState`. -/
inductive ProcessState
  | running
  | ready
  | blocked
  | dead
  deriving DecidableEq, Repr

/-- The fields of `Process` that the scheduler and the syscalls use. `kernelStack` is the address
of the `kernel_stack` array, `pageDir` is `none` for a null `page_dir`. -/
structure Process where
  pid : Nat
  state : ProcessState
  esp : Nat
  pageDir : Option Nat
  exitCode : Int
  parentPid : Int
  waitPid : Int
  kernelStack : Nat
  deriving DecidableEq, Repr

/-- `Process::KernelStackTop`. -/
def Process.kernelStackTop (p : Process) : Nat := (p.kernelStack + 4096) % 2 ^ 32

/-- `(int)` of a `uint32_t`. -/
def toInt32 (n : Nat) : Int :=
  if n % 2 ^ 32 < 2 ^ 31 then (n % 2 ^ 32 : Nat) else (n % 2 ^ 32 : Nat) - 2 ^ 32

/-- `Scheduler`, with the processor state that it writes. -/
structure Scheduler where
  processes : List Process
  current : Option Nat
  tssKernelStack : Nat
  directory : Option Nat
  deriving DecidableEq, Repr

/-- `MAX_PROCESSES`. -/
def maxProcesses : Nat := 16

/-- The constructor. -/
def Scheduler.init : Scheduler where
  processes := []
  current := none
  tssKernelStack := 0
  directory := none

namespace Scheduler

/-- A process as `Process::Process` leaves it, with its frame at `esp`. -/
def freshProcess (pid esp : Nat) : Process where
  pid := pid
  state := .ready
  esp := esp
  pageDir := none
  exitCode := 0
  parentPid := -1
  waitPid := -1
  kernelStack := esp - 4024

/-- The state of the process in a slot of the table. -/
def stateAt (s : Scheduler) (index : Nat) : Option ProcessState :=
  s.processes[index]?.map Process.state

/-- The saved stack pointer of the process in a slot of the table. -/
def espAt (s : Scheduler) (index : Nat) : Option Nat := s.processes[index]?.map Process.esp

/-- Rewrite the process in one slot. -/
def modify (s : Scheduler) (index : Nat) (change : Process → Process) : Scheduler :=
  { s with processes := s.processes.modify index change }

/-- `AddProcess`. -/
def addProcess (s : Scheduler) (p : Process) : Scheduler :=
  if maxProcesses ≤ s.processes.length then s
  else { s with processes := s.processes ++ [{ p with state := .ready }] }

/-- `GetActive`. -/
def getActive (s : Scheduler) : Option Process :=
  match s.current with
  | none => none
  | some index => s.processes[index]?

/-- `FindProcess`. -/
def findProcess (s : Scheduler) (pid : Int) : Option Process :=
  s.processes.find? fun p => toInt32 p.pid == pid

/-- `WakeParent`: every process blocked on `pid` becomes `READY`. -/
def wakeParent (s : Scheduler) (pid : Int) : Scheduler :=
  { s with processes := s.processes.map fun p =>
      if p.state = .blocked ∧ p.waitPid = pid then { p with state := .ready, waitPid := -1 }
      else p }

/-- `NextPID`. -/
def nextPID (s : Scheduler) : Int :=
  s.processes.foldl (fun greatest p => if greatest < toInt32 p.pid then toInt32 p.pid else greatest) 0
    + 1

/-- The process `Schedule` interrupts is `RUNNING`: its `was_running`. -/
def wasRunning (s : Scheduler) : Bool :=
  match s.current with
  | none => false
  | some index => s.stateAt index = some .running

/-- The first part of `Schedule`: a `RUNNING` process becomes `READY` with its stack pointer
saved. -/
def save (s : Scheduler) (esp : Nat) : Scheduler :=
  match s.current with
  | none => s
  | some index =>
    if s.stateAt index = some .running then
      s.modify index fun p => { p with state := .ready, esp := esp }
    else s

/-- The slot `(current_index + i) % process_count` of the `i`-th probe. -/
def probe (s : Scheduler) (i : Nat) : Nat :=
  match s.current with
  | none => (i - 1) % s.processes.length
  | some index => (index + i) % s.processes.length

/-- `found` after the probing loop: the first `READY` slot, else `current_index`. -/
def found (s : Scheduler) : Option Nat :=
  match (List.range s.processes.length).find? fun i => s.stateAt (s.probe (i + 1)) = some .ready with
  | some i => some (s.probe (i + 1))
  | none => s.current

/-- The slot `Schedule` gives the CPU to, after the check `state == PROCESS_READY`. -/
def pick (s : Scheduler) : Option Nat :=
  match s.found with
  | none => none
  | some index => if s.stateAt index = some .ready then some index else none

/-- The second part of `Schedule`: the picked process runs, with its directory and its kernel
stack. -/
def dispatch (s : Scheduler) (index : Nat) : Scheduler :=
  match s.processes[index]? with
  | none => s
  | some p =>
    { processes := s.processes.modify index fun p => { p with state := .running }
      current := some index
      tssKernelStack := p.kernelStackTop
      directory := if p.pageDir.isSome then p.pageDir else s.directory }

/-- `Schedule(esp)`: the stack pointer it returns and the state it leaves. -/
def schedule (s : Scheduler) (esp : Nat) : Nat × Scheduler :=
  match (s.save esp).pick with
  | none => (esp, s.save esp)
  | some index =>
    if s.wasRunning = false ∧ s.current = some index then (esp, (s.save esp).dispatch index)
    else (((s.save esp).espAt index).getD esp, (s.save esp).dispatch index)

end Scheduler

/-! ### Events -/

/-- What happens to the process table. -/
inductive Event
  /-- The timer interrupt: `Schedule(esp)`. -/
  | tick (esp : Nat)
  /-- The active process marks itself `BLOCKED` in a blocking syscall. -/
  | block (waitPid : Int)
  /-- `WakeParent(pid)`. -/
  | wake (pid : Int)
  /-- The active process marks itself `RUNNING` when its syscall goes on. -/
  | resume
  /-- The exit syscall: `DEAD`, `WakeParent`, `Schedule(esp)`. -/
  | exit (code : Int) (esp : Nat)
  /-- `AddProcess`. -/
  | add (p : Process)
  deriving DecidableEq, Repr

namespace Scheduler

/-- Rewrite the active process, if there is one. -/
def modifyActive (s : Scheduler) (change : Process → Process) : Scheduler :=
  match s.current with
  | none => s
  | some index => s.modify index change

/-- The exit syscall before its `Schedule` call. -/
def markDead (s : Scheduler) (code : Int) : Scheduler :=
  match s.getActive with
  | none => s
  | some p =>
    (s.modifyActive fun p => { p with exitCode := code, state := .dead }).wakeParent
      (toInt32 p.pid)

/-- The `Schedule` call that an event makes: the state it finds and its argument. -/
def scheduleCall (s : Scheduler) : Event → Option (Scheduler × Nat)
  | .tick esp => some (s, esp)
  | .exit code esp => some (s.markDead code, esp)
  | _ => none

/-- One event. -/
def step (s : Scheduler) : Event → Scheduler
  | .tick esp => (s.schedule esp).2
  | .block waitPid => s.modifyActive fun p => { p with state := .blocked, waitPid := waitPid }
  | .wake pid => s.wakeParent pid
  | .resume => s.modifyActive fun p => { p with state := .running, waitPid := -1 }
  | .exit code esp => ((s.markDead code).schedule esp).2
  | .add p => s.addProcess p

/-! ### What `Schedule` does to the table -/

theorem processes_modify (s : Scheduler) (index slot : Nat) (change : Process → Process) :
    (s.modify index change).processes[slot]? =
      s.processes[slot]?.map fun p => if index = slot then change p else p := by
  simp [modify, List.getElem?_modify]

theorem stateAt_modify_other (s : Scheduler) {index slot : Nat} (change : Process → Process)
    (other : index ≠ slot) : (s.modify index change).stateAt slot = s.stateAt slot := by
  rw [stateAt, processes_modify, Option.map_map]
  simp [Function.comp_def, other, stateAt]

theorem stateAt_modify_self (s : Scheduler) {index : Nat} {change : Process → Process}
    {state : ProcessState} (sets : ∀ p, (change p).state = state)
    (bound : index < s.processes.length) : (s.modify index change).stateAt index = some state := by
  rw [stateAt, processes_modify, List.getElem?_eq_getElem bound]
  simp [sets]

theorem stateAt_wakeParent {s : Scheduler} {slot : Nat} {state : ProcessState} (pid : Int)
    (idle : state ≠ .ready) (free : state ≠ .blocked) :
    (s.wakeParent pid).stateAt slot = some state ↔ s.stateAt slot = some state := by
  simp only [stateAt, wakeParent, List.getElem?_map, Option.map_map]
  cases s.processes[slot]? with
  | none => simp
  | some p =>
    simp only [Option.map_some, Function.comp_apply, Option.some.injEq]
    split_ifs with woken
    · constructor
      · exact fun same => absurd same.symm idle
      · exact fun same => absurd (same.symm.trans woken.1) free
    · rfl

theorem espAt_modify (s : Scheduler) (index slot : Nat) (change : Process → Process) :
    (s.modify index change).espAt slot =
      if index = slot then s.processes[slot]?.map fun p => (change p).esp else s.espAt slot := by
  unfold espAt modify
  by_cases same : index = slot
  · subst same
    simp [Function.comp_def]
  · simp [same]

theorem espAt_modify_keep (s : Scheduler) (index slot : Nat) (change : Process → Process)
    (keep : ∀ p, (change p).esp = p.esp) : (s.modify index change).espAt slot = s.espAt slot := by
  rw [espAt_modify]
  split
  · simp only [keep]
    rfl
  · rfl

theorem espAt_wakeParent (s : Scheduler) (pid : Int) (slot : Nat) :
    (s.wakeParent pid).espAt slot = s.espAt slot := by
  simp only [espAt, wakeParent, List.getElem?_map, Option.map_map]
  congr 1
  funext p
  simp only [Function.comp_apply]
  split <;> rfl

theorem pick_isReady {s : Scheduler} {index : Nat} (picked : s.pick = some index) :
    s.stateAt index = some .ready := by
  unfold pick at picked
  split at picked
  · cases picked
  · split at picked
    · cases picked
      assumption
    · cases picked

theorem pick_lt {s : Scheduler} {index : Nat} (picked : s.pick = some index) : index < s.processes.length := by
  have state := pick_isReady picked
  unfold stateAt at state
  obtain ⟨p, there, _⟩ := Option.map_eq_some_iff.mp state
  exact (List.getElem?_eq_some_iff.mp there).1

theorem espAt_dispatch (s : Scheduler) (index slot : Nat) : (s.dispatch index).espAt slot = s.espAt slot := by
  unfold dispatch
  split
  · rfl
  · exact espAt_modify_keep s index slot (fun p => { p with state := .running }) fun _ => rfl

theorem dispatch_current {s : Scheduler} {index : Nat} (bound : index < s.processes.length) :
    (s.dispatch index).current = some index := by
  unfold dispatch
  rw [List.getElem?_eq_getElem bound]

theorem save_current (s : Scheduler) (esp : Nat) : (s.save esp).current = s.current := by
  unfold save modify
  split
  · rfl
  · split <;> rfl

theorem modifyActive_current (s : Scheduler) (change : Process → Process) :
    (s.modifyActive change).current = s.current := by
  unfold modifyActive
  split <;> rfl

theorem modifyActive_other {s : Scheduler} {slot : Nat} (change : Process → Process)
    (other : s.current ≠ some slot) :
    (s.modifyActive change).processes[slot]? = s.processes[slot]? := by
  unfold modifyActive
  split
  · rfl
  · rename_i index current
    rw [processes_modify]
    simp [show index ≠ slot from fun same => other (by rw [current, same])]

theorem addProcess_there {s : Scheduler} {slot : Nat} {q : Process} (p : Process)
    (there : s.processes[slot]? = some q) : (s.addProcess p).processes[slot]? = some q := by
  unfold addProcess
  split
  · exact there
  · exact (List.getElem?_append_left (List.getElem?_eq_some_iff.mp there).1).trans there

theorem addProcess_current (s : Scheduler) (p : Process) : (s.addProcess p).current = s.current := by
  unfold addProcess
  split <;> rfl

theorem markDead_current (s : Scheduler) (code : Int) : (s.markDead code).current = s.current := by
  unfold markDead
  split
  · rfl
  · exact modifyActive_current s _

theorem save_eq_self {s : Scheduler} (esp : Nat) (idle : s.wasRunning = false) : s.save esp = s := by
  unfold save
  unfold wasRunning at idle
  split
  · rfl
  · rename_i index current
    rw [current] at idle
    rw [if_neg (of_decide_eq_false idle)]

theorem save_espAt_other {s : Scheduler} {slot : Nat} (esp : Nat) (other : s.current ≠ some slot) :
    (s.save esp).espAt slot = s.espAt slot := by
  unfold save
  split
  · rfl
  · rename_i index current
    have different : index ≠ slot := fun same => other (by rw [current, same])
    split
    · rw [espAt_modify, if_neg different]
    · rfl

theorem save_espAt_running {s : Scheduler} {slot : Nat} (esp : Nat) (current : s.current = some slot)
    (running : s.stateAt slot = some .running) : (s.save esp).espAt slot = some esp := by
  unfold save
  rw [current]
  simp only [running, if_true]
  rw [espAt_modify, if_pos rfl]
  unfold stateAt at running
  obtain ⟨p, there, _⟩ := Option.map_eq_some_iff.mp running
  rw [there]
  rfl

/-- **The saved stack pointers after `Schedule`** are those after its save: dispatching writes
none. -/
theorem schedule_espAt (s : Scheduler) (esp slot : Nat) :
    (s.schedule esp).2.espAt slot = (s.save esp).espAt slot := by
  unfold schedule
  split
  · rfl
  · split <;> exact espAt_dispatch _ _ _

theorem schedule_snd (s : Scheduler) (esp : Nat) : (s.schedule esp).2 =
    match (s.save esp).pick with
    | none => s.save esp
    | some index => (s.save esp).dispatch index := by
  unfold schedule
  cases (s.save esp).pick with
  | none => rfl
  | some index =>
    simp only
    split <;> rfl

theorem save_stateAt_other {s : Scheduler} {slot : Nat} (esp : Nat) (other : s.current ≠ some slot) :
    (s.save esp).stateAt slot = s.stateAt slot := by
  unfold save
  split
  · rfl
  · rename_i index current
    split
    · exact stateAt_modify_other s _ fun same => other (by rw [current, same])
    · rfl

theorem dispatch_stateAt_other {s : Scheduler} {index slot : Nat} (other : index ≠ slot) :
    (s.dispatch index).stateAt slot = s.stateAt slot := by
  unfold dispatch
  split
  · rfl
  · exact stateAt_modify_other s (fun p => { p with state := .running }) other

theorem dispatch_stateAt_self {s : Scheduler} {index : Nat} (bound : index < s.processes.length) :
    (s.dispatch index).stateAt index = some .running := by
  unfold dispatch
  rw [List.getElem?_eq_getElem bound]
  exact stateAt_modify_self s (fun _ => rfl) bound

theorem schedule_stateAt_other {s : Scheduler} {esp slot : Nat} (other : s.current ≠ some slot)
    (avoided : (s.save esp).pick ≠ some slot) :
    (s.schedule esp).2.stateAt slot = s.stateAt slot := by
  rw [schedule_snd]
  split
  · exact save_stateAt_other esp other
  · rename_i index picked
    rw [dispatch_stateAt_other fun same => avoided (by rw [picked, same]), save_stateAt_other esp other]

theorem schedule_current_none {s : Scheduler} {esp : Nat} (none : (s.save esp).pick = none) :
    (s.schedule esp).2.current = s.current := by
  unfold schedule
  rw [none]
  exact save_current s esp

theorem schedule_current_some {s : Scheduler} {esp index : Nat}
    (picked : (s.save esp).pick = some index) : (s.schedule esp).2.current = some index := by
  unfold schedule
  rw [picked]
  simp only
  split <;> exact dispatch_current (pick_lt picked)

theorem schedule_fst_other {s : Scheduler} {esp index saved : Nat}
    (picked : (s.save esp).pick = some index) (other : s.current ≠ some index)
    (stored : s.espAt index = some saved) : (s.schedule esp).1 = saved := by
  unfold schedule
  rw [picked]
  simp only
  rw [if_neg fun both => other both.2, save_espAt_other esp other, stored, Option.getD_some]

end Scheduler

end LaylaOS.Kernel
