/-
**Coherence of the process table.**

* `scheduler_coherent` — every run from the constructor keeps the table coherent, and no `Schedule`
  call of a run fails a check.
-/

import LaylaOS.Kernel.Scheduler

namespace LaylaOS.Kernel

open LaylaOS.Lib

namespace Scheduler

/-! ### `Schedule`, checked -/

/-- `a % n`, which faults if `n` is zero. -/
def checkedMod (a n : Nat) : Option Nat := if n = 0 then none else some (a % n)

/-- `(current_index + i) % process_count`. -/
def probeChecked (s : Scheduler) (i : Nat) : Option Nat :=
  match s.current with
  | none => checkedMod (i - 1) s.processes.length
  | some current => checkedMod (current + i) s.processes.length

/-- The probing loop from its `i`-th round on. -/
def scanChecked (s : Scheduler) : Nat → Nat → Option (Option Nat)
  | 0, _ => some s.current
  | rounds + 1, i => do
    let index ← s.probeChecked i
    let p ← s.processes[index]?
    if p.state = .ready then some (some index) else s.scanChecked rounds (i + 1)

/-- `was_running` and the table after the first part of `Schedule`. -/
def saveChecked (s : Scheduler) (esp : Nat) : Option (Bool × Scheduler) :=
  match s.current with
  | none => some (false, s)
  | some index => do
    let cur ← s.processes[index]?
    if cur.state = .running then
      some (true, s.modify index fun p => { p with state := .ready, esp := esp })
    else some (false, s)

/-- `Schedule(esp)`, or `none` if it indexes the table out of range or divides by zero. -/
def scheduleChecked (s : Scheduler) (esp : Nat) : Option (Nat × Scheduler) := do
  let (wasRunning, saved) ← s.saveChecked esp
  match ← saved.scanChecked saved.processes.length 1 with
  | none => some (esp, saved)
  | some found => do
    let next ← saved.processes[found]?
    if next.state = .ready then
      if wasRunning = false ∧ s.current = some found then some (esp, saved.dispatch found)
      else some (next.esp, saved.dispatch found)
    else some (esp, saved)

/-- `current_index` is `-1` or an index of the table. -/
def InTable (s : Scheduler) : Prop := ∀ slot ∈ s.current, slot < s.processes.length

theorem saveChecked_eq {s : Scheduler} (esp : Nat) (inTable : s.InTable) :
    s.saveChecked esp = some (s.wasRunning, s.save esp) := by
  unfold saveChecked wasRunning save stateAt
  cases current : s.current with
  | none => rfl
  | some index =>
    have there := List.getElem?_eq_getElem (inTable index current)
    simp only [there, Option.map_some, Option.some.injEq]
    show (if _ then _ else _) = _
    split_ifs with running
    · simp [running]
    · simp [running]

theorem save_length (s : Scheduler) (esp : Nat) : (s.save esp).processes.length = s.processes.length := by
  unfold save modify
  split
  · rfl
  · split
    · exact List.length_modify ..
    · rfl

theorem probe_lt {s : Scheduler} (i : Nat) (some : 0 < s.processes.length) :
    s.probe i < s.processes.length := by
  unfold probe
  split <;> exact Nat.mod_lt _ some

theorem exists_probe {s : Scheduler} (inTable : s.InTable) {slot : Nat}
    (bound : slot < s.processes.length) : ∃ i < s.processes.length, s.probe (i + 1) = slot := by
  unfold probe
  cases current : s.current with
  | none => exact ⟨slot, bound, Nat.mod_eq_of_lt bound⟩
  | some index =>
    have low := inTable index current
    by_cases behind : index < slot
    · refine ⟨slot - index - 1, by omega, ?_⟩
      show (index + (slot - index - 1 + 1)) % s.processes.length = slot
      rw [show index + (slot - index - 1 + 1) = slot by omega, Nat.mod_eq_of_lt bound]
    · refine ⟨slot + s.processes.length - index - 1, by omega, ?_⟩
      show (index + (slot + s.processes.length - index - 1 + 1)) % s.processes.length = slot
      rw [show index + (slot + s.processes.length - index - 1 + 1) = slot + s.processes.length by
        omega, Nat.add_mod_right, Nat.mod_eq_of_lt bound]

theorem pick_scan {s : Scheduler} (inTable : s.InTable) {slot : Nat}
    (ready : s.stateAt slot = some .ready) : ∃ i j, j < s.processes.length ∧
      s.probe (j + 1) = slot ∧ i ≤ j ∧ s.pick = some (s.probe (i + 1)) := by
  obtain ⟨p, there, -⟩ := Option.map_eq_some_iff.mp ready
  obtain ⟨j, inside, probed⟩ := exists_probe inTable (List.getElem?_eq_some_iff.mp there).1
  unfold pick found
  cases scan : (List.range s.processes.length).find?
      fun i => s.stateAt (s.probe (i + 1)) = some .ready with
  | none =>
    have missed := List.find?_eq_none.mp scan j (List.mem_range.mpr inside)
    simp [probed, ready] at missed
  | some i =>
    obtain ⟨hit, -, before⟩ := List.find?_range_eq_some.mp scan
    refine ⟨i, j, inside, probed, ?_, if_pos (of_decide_eq_true hit)⟩
    by_contra late
    have missed := before j (Nat.lt_of_not_le late)
    simp [probed, ready] at missed

theorem scanChecked_eq (s : Scheduler) (rounds i : Nat) (total : i + rounds = s.processes.length) :
    s.scanChecked rounds (i + 1) = some
      (match (List.range' i rounds).find? fun k => s.stateAt (s.probe (k + 1)) = some .ready with
      | some k => some (s.probe (k + 1))
      | none => s.current) := by
  induction rounds generalizing i with
  | zero => rfl
  | succ rounds ih =>
    have count : 0 < s.processes.length := by omega
    obtain ⟨p, there⟩ : ∃ p, s.processes[s.probe (i + 1)]? = some p :=
      ⟨_, List.getElem?_eq_getElem (probe_lt (i + 1) count)⟩
    have index : s.probeChecked (i + 1) = some (s.probe (i + 1)) := by
      unfold probeChecked probe checkedMod
      cases s.current <;> simp [Nat.ne_of_gt count]
    rw [scanChecked, index]
    simp only [Option.bind_eq_bind, Option.bind_some, there]
    rw [List.range'_succ, List.find?_cons]
    by_cases ready : p.state = .ready
    · have here : s.stateAt (s.probe (i + 1)) = some .ready := by
        rw [stateAt, there, Option.map_some, ready]
      simp [ready, here]
    · have here : s.stateAt (s.probe (i + 1)) ≠ some .ready := by
        rw [stateAt, there, Option.map_some]
        exact fun same => ready (Option.some.inj same)
      rw [if_neg ready, ih (i + 1) (by omega)]
      simp [here]

theorem InTable.save {s : Scheduler} (inTable : s.InTable) (esp : Nat) : (s.save esp).InTable := by
  unfold InTable
  rwa [save_current, save_length]

theorem found_lt {s : Scheduler} {index : Nat} (inTable : s.InTable) (found : s.found = some index) :
    index < s.processes.length := by
  unfold Scheduler.found at found
  split at found
  · rename_i k probed
    cases found
    have inside := List.mem_range.mp (List.mem_of_find?_eq_some probed)
    exact probe_lt (k + 1) (by omega)
  · exact inTable index found

/-- **The checked `Schedule`** passes all its checks and does what `schedule` says. -/
theorem scheduleChecked_eq {s : Scheduler} (esp : Nat) (inTable : s.InTable) :
    s.scheduleChecked esp = some (s.schedule esp) := by
  have scan : (s.save esp).scanChecked (s.save esp).processes.length 1 = some (s.save esp).found := by
    rw [scanChecked_eq _ _ 0 (Nat.zero_add _), ← List.range_eq_range']
    rfl
  unfold scheduleChecked schedule pick
  rw [saveChecked_eq esp inTable]
  simp only [Option.bind_eq_bind, Option.bind_some, scan]
  cases found : (s.save esp).found with
  | none => rfl
  | some index =>
    obtain ⟨p, there⟩ : ∃ p, (s.save esp).processes[index]? = some p :=
      ⟨_, List.getElem?_eq_getElem (found_lt (inTable.save esp) found)⟩
    simp only [there, Option.bind_some, espAt, stateAt, Option.map_some, Option.some.injEq]
    by_cases ready : p.state = .ready
    · by_cases same : s.wasRunning = false ∧ s.current = some index
      · simp [ready, same]
      · simp [ready, same, there]
    · simp [ready]

/-! ### Coherence -/

/-- The process at `current_index` has its kernel stack in the TSS and its directory loaded. -/
def Loaded (s : Scheduler) : Prop :=
  ∀ slot ∈ s.current, ∃ p, s.processes[slot]? = some p ∧ s.tssKernelStack = p.kernelStackTop ∧
    ∀ dir ∈ p.pageDir, s.directory = some dir

/-- The table is as it was, up to states, saved stack pointers and new processes. -/
structure Follows (s t : Scheduler) : Prop where
  current : t.current = s.current
  tss : t.tssKernelStack = s.tssKernelStack
  directory : t.directory = s.directory
  process : ∀ (slot : Nat) (p : Process), s.processes[slot]? = some p →
    ∃ q : Process, t.processes[slot]? = some q ∧ q.kernelStack = p.kernelStack ∧ q.pageDir = p.pageDir

theorem Follows.refl (s : Scheduler) : Follows s s := ⟨rfl, rfl, rfl, fun _ p there => ⟨p, there, rfl, rfl⟩⟩

theorem Follows.loaded {s t : Scheduler} (follows : Follows s t) (loaded : s.Loaded) : t.Loaded := by
  intro slot current
  rw [follows.current] at current
  obtain ⟨p, there, stack, dirs⟩ := loaded slot current
  obtain ⟨q, here, sameStack, sameDir⟩ := follows.process slot p there
  refine ⟨q, here, ?_, ?_⟩
  · rw [follows.tss, stack, Process.kernelStackTop, Process.kernelStackTop, sameStack]
  · rw [sameDir, follows.directory]
    exact dirs

theorem follows_modify (s : Scheduler) (index : Nat) {change : Process → Process}
    (keeps : ∀ p, (change p).kernelStack = p.kernelStack ∧ (change p).pageDir = p.pageDir) :
    Follows s (s.modify index change) := by
  refine ⟨rfl, rfl, rfl, fun slot p there => ?_⟩
  rw [processes_modify, there, Option.map_some]
  refine ⟨_, rfl, ?_⟩
  split
  · exact keeps p
  · exact ⟨rfl, rfl⟩

theorem Loaded.modifyActive {s : Scheduler} (loaded : s.Loaded) (change : Process → Process)
    (keeps : ∀ p, (change p).kernelStack = p.kernelStack ∧ (change p).pageDir = p.pageDir) :
    (s.modifyActive change).Loaded := by
  unfold Scheduler.modifyActive
  split
  · exact loaded
  · exact (follows_modify s _ keeps).loaded loaded

theorem follows_wakeParent (s : Scheduler) (pid : Int) : Follows s (s.wakeParent pid) := by
  refine ⟨rfl, rfl, rfl, fun slot p there => ?_⟩
  simp only [wakeParent, List.getElem?_map, there, Option.map_some]
  refine ⟨_, rfl, ?_⟩
  split <;> exact ⟨rfl, rfl⟩

theorem follows_addProcess (s : Scheduler) (p : Process) : Follows s (s.addProcess p) := by
  unfold addProcess
  split
  · exact .refl s
  · refine ⟨rfl, rfl, rfl, fun slot q there => ⟨q, ?_, rfl, rfl⟩⟩
    rw [List.getElem?_append_left (List.getElem?_eq_some_iff.mp there).1, there]

theorem follows_save (s : Scheduler) (esp : Nat) : Follows s (s.save esp) := by
  unfold save
  split
  · exact .refl s
  · split
    · exact follows_modify s _ fun _ => ⟨rfl, rfl⟩
    · exact .refl s

/-- Only the process at `current_index` may be `RUNNING`. -/
def OnlyCurrent (s : Scheduler) : Prop :=
  ∀ slot, s.stateAt slot = some .running → s.current = some slot

theorem OnlyCurrent.modifyActive {s : Scheduler} (only : s.OnlyCurrent) (change : Process → Process) :
    (s.modifyActive change).OnlyCurrent := by
  unfold Scheduler.modifyActive
  cases current : s.current with
  | none => exact only
  | some index =>
    intro slot running
    by_cases same : index = slot
    · rw [← same]
      exact current
    · rw [stateAt_modify_other s change same] at running
      exact only slot running

theorem OnlyCurrent.wakeParent {s : Scheduler} (only : s.OnlyCurrent) (pid : Int) :
    (s.wakeParent pid).OnlyCurrent :=
  fun slot running => only slot ((stateAt_wakeParent pid (by decide) (by decide)).mp running)

theorem OnlyCurrent.addProcess {s : Scheduler} (only : s.OnlyCurrent) (p : Process) :
    (s.addProcess p).OnlyCurrent := by
  unfold Scheduler.addProcess
  split
  · exact only
  · intro slot running
    refine only slot ?_
    unfold stateAt at running ⊢
    rw [List.getElem?_append] at running
    split at running
    · exact running
    · obtain ⟨q, there, state⟩ := Option.map_eq_some_iff.mp running
      rw [List.getElem?_singleton] at there
      split at there
      · cases there
        cases state
      · cases there

theorem OnlyCurrent.save {s : Scheduler} (only : s.OnlyCurrent) (esp slot : Nat) :
    (s.save esp).stateAt slot ≠ some .running := by
  unfold Scheduler.save
  split
  · rename_i none
    intro running
    cases none.symm.trans (only slot running)
  · rename_i index current
    by_cases same : index = slot
    · subst same
      split
      · rename_i running
        unfold stateAt at running
        obtain ⟨p, there, -⟩ := Option.map_eq_some_iff.mp running
        have ready : (s.modify index fun p => { p with state := .ready, esp := esp }).stateAt index =
            some .ready :=
          stateAt_modify_self s (fun _ => rfl) (List.getElem?_eq_some_iff.mp there).1
        rw [ready]
        decide
      · assumption
    · have idle : s.stateAt slot ≠ some .running := by
        intro running
        exact same (Option.some.inj (current.symm.trans (only slot running)))
      split
      · rwa [stateAt_modify_other s _ same]
      · exact idle

theorem schedule_coherent {s : Scheduler} (esp : Nat) (only : s.OnlyCurrent) (loaded : s.Loaded) :
    (s.schedule esp).2.OnlyCurrent ∧ (s.schedule esp).2.Loaded := by
  have idle := only.save esp
  rw [schedule_snd]
  cases picked : (s.save esp).pick with
  | none =>
    exact ⟨fun slot running => absurd running (idle slot), (follows_save s esp).loaded loaded⟩
  | some index =>
    obtain ⟨p, there⟩ : ∃ p, (s.save esp).processes[index]? = some p :=
      ⟨_, List.getElem?_eq_getElem (pick_lt picked)⟩
    simp only
    rw [dispatch, there]
    constructor
    · intro slot running
      by_cases same : index = slot
      · rw [← same]
      · refine absurd ?_ (idle slot)
        rw [← stateAt_modify_other (s.save esp) (fun p => { p with state := .running }) same]
        exact running
    · rintro slot ⟨⟩
      refine ⟨{ p with state := .running }, ?_, rfl, fun dir member => ?_⟩
      · simp [there]
      · simp only [Option.mem_def] at member
        simp [member]

theorem markDead_coherent {s : Scheduler} (code : Int) (only : s.OnlyCurrent) (loaded : s.Loaded) :
    (s.markDead code).OnlyCurrent ∧ (s.markDead code).Loaded := by
  unfold markDead
  split
  · exact ⟨only, loaded⟩
  · exact ⟨(only.modifyActive _).wakeParent _, (follows_wakeParent _ _).loaded
      (loaded.modifyActive _ fun _ => ⟨rfl, rfl⟩)⟩

/-- **One event keeps the table coherent.** -/
theorem step_coherent {s : Scheduler} (event : Event) (only : s.OnlyCurrent) (loaded : s.Loaded) :
    (s.step event).OnlyCurrent ∧ (s.step event).Loaded := by
  cases event with
  | tick esp => exact schedule_coherent esp only loaded
  | block waitPid => exact ⟨only.modifyActive _, loaded.modifyActive _ fun _ => ⟨rfl, rfl⟩⟩
  | wake pid => exact ⟨only.wakeParent pid, (follows_wakeParent s pid).loaded loaded⟩
  | resume => exact ⟨only.modifyActive _, loaded.modifyActive _ fun _ => ⟨rfl, rfl⟩⟩
  | exit code esp =>
    obtain ⟨only, loaded⟩ := markDead_coherent code only loaded
    exact schedule_coherent esp only loaded
  | add p => exact ⟨only.addProcess p, (follows_addProcess s p).loaded loaded⟩

theorem Loaded.inTable {s : Scheduler} (loaded : s.Loaded) : s.InTable := by
  intro slot current
  obtain ⟨p, there, -⟩ := loaded slot current
  exact (List.getElem?_eq_some_iff.mp there).1

/-- The state after a sequence of events. -/
def run (events : List Event) : Scheduler := events.foldl step init

theorem run_coherent (events : List Event) : (run events).OnlyCurrent ∧ (run events).Loaded := by
  induction events using List.reverseRecOn with
  | nil =>
    refine ⟨fun slot running => ?_, fun slot none => by cases none⟩
    simp [run, stateAt, init] at running
  | append_singleton events event ih =>
    rw [run, List.foldl_append]
    exact step_coherent event ih.1 ih.2

/-- **The table stays coherent**, and `Schedule` indexes it in range and divides by no zero. -/
theorem scheduler_coherent (events : List Event) :
    (∀ i j, (run events).stateAt i = some .running → (run events).stateAt j = some .running → i = j) ∧
    (∀ i, (run events).stateAt i = some .running → (run events).current = some i) ∧
    (∀ i ∈ (run events).current, i < (run events).processes.length) ∧
    (∀ i ∈ (run events).current, ∀ p ∈ (run events).processes[i]?,
      (run events).tssKernelStack = p.kernelStackTop ∧ ∀ dir ∈ p.pageDir, (run events).directory = some dir) ∧
    (∀ event, ∀ call ∈ (run events).scheduleCall event,
      call.1.scheduleChecked call.2 = some (call.1.schedule call.2)) := by
  obtain ⟨only, loaded⟩ := run_coherent events
  refine ⟨fun i j first second => ?_, only, loaded.inTable, fun i current p there => ?_, ?_⟩
  · exact Option.some.inj ((only i first).symm.trans (only j second))
  · obtain ⟨q, here, found⟩ := loaded i current
    cases here.symm.trans there
    exact found
  · intro event call made
    cases event with
    | tick esp =>
      cases made
      exact scheduleChecked_eq esp loaded.inTable
    | exit code esp =>
      cases made
      exact scheduleChecked_eq esp (markDead_coherent code only loaded).2.inTable
    | _ => cases made

end Scheduler

end LaylaOS.Kernel
