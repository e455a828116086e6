/-
**When an exited process is gone.**

The exit syscall marks its process `DEAD` and calls `Schedule`. If nothing else is `READY` then,
`Schedule` hands back the stack pointer it was given, and the dead process goes on executing.

* `exit_final_iff` — that is so exactly in the runs in which every exit leaves another process to
  switch to.
-/

import LaylaOS.Kernel.Coherence

namespace LaylaOS.Kernel

open LaylaOS.Lib

namespace Scheduler

/-- The process whose stack pointer `Schedule` returns: the picked one or, with none `READY`, the
interrupted one, whose `esp` is returned as it is. -/
def resumed (s : Scheduler) (esp : Nat) : Option Nat :=
  match (s.save esp).pick with
  | some index => some index
  | none => s.current

/-- No `Schedule` call that the event makes returns a stack pointer of the process. -/
def Spares (s : Scheduler) (event : Event) (slot : Nat) : Prop :=
  ∀ call ∈ s.scheduleCall event, call.1.resumed call.2 ≠ some slot

/-- The process is `DEAD` throughout the run, and no `Schedule` call resumes it. -/
def StaysDead (slot : Nat) : Scheduler → List Event → Prop
  | s, [] => s.stateAt slot = some .dead
  | s, event :: events =>
    s.stateAt slot = some .dead ∧ s.Spares event slot ∧ StaysDead slot (s.step event) events

/-- A process that exits is not resumed by that `Schedule` call, and stays dead. -/
def ExitsForGood : Scheduler → List Event → Prop
  | _, [] => True
  | s, event :: events =>
    (∀ code esp, event = .exit code esp → ∀ slot ∈ s.current,
      s.Spares event slot ∧ StaysDead slot (s.step event) events) ∧
    ExitsForGood (s.step event) events

/-- An exit finds another process that is `READY`, or `BLOCKED` in wait for the one that exits. -/
def LeavesOther (s : Scheduler) : Event → Prop
  | .exit _ _ => ∀ slot ∈ s.current, ∀ p ∈ s.processes[slot]?,
      ∃ other < s.processes.length, other ≠ slot ∧ ∃ q ∈ s.processes[other]?,
        q.state = .ready ∨ q.state = .blocked ∧ q.waitPid = toInt32 p.pid
  | _ => True

/-! ### Dead and off the CPU -/

/-- The process is `DEAD` and not the active one. -/
def Buried (slot : Nat) (s : Scheduler) : Prop :=
  s.stateAt slot = some .dead ∧ s.current ≠ some slot

theorem Buried.modifyActive {slot : Nat} {s : Scheduler} (buried : Buried slot s)
    (change : Process → Process) : Buried slot (s.modifyActive change) := by
  refine ⟨?_, ?_⟩
  · rw [stateAt, modifyActive_other change buried.2]
    exact buried.1
  · rw [modifyActive_current]
    exact buried.2

theorem Buried.wakeParent {slot : Nat} {s : Scheduler} (buried : Buried slot s) (pid : Int) :
    Buried slot (s.wakeParent pid) :=
  ⟨(stateAt_wakeParent pid (by decide) (by decide)).mpr buried.1, buried.2⟩

theorem Buried.markDead {slot : Nat} {s : Scheduler} (buried : Buried slot s) (code : Int) :
    Buried slot (s.markDead code) := by
  unfold Scheduler.markDead
  split
  · exact buried
  · exact (buried.modifyActive _).wakeParent _

theorem Buried.resumed {slot : Nat} {s : Scheduler} (buried : Buried slot s) (esp : Nat) :
    s.resumed esp ≠ some slot ∧ (s.save esp).pick ≠ some slot := by
  have avoided : (s.save esp).pick ≠ some slot := by
    intro picked
    have ready := pick_isReady picked
    rw [save_stateAt_other esp buried.2, buried.1] at ready
    cases ready
  refine ⟨?_, avoided⟩
  unfold Scheduler.resumed
  split
  · rename_i index picked
    rwa [← picked]
  · exact buried.2

theorem resumed_eq (s : Scheduler) (esp : Nat) : s.resumed esp = (s.schedule esp).2.current := by
  unfold resumed
  split
  · rename_i index picked
    exact (schedule_current_some picked).symm
  · rename_i none
    exact (schedule_current_none none).symm

theorem Buried.schedule {slot : Nat} {s : Scheduler} (buried : Buried slot s) (esp : Nat) :
    Buried slot (s.schedule esp).2 := by
  obtain ⟨spared, avoided⟩ := buried.resumed esp
  rw [resumed_eq] at spared
  exact ⟨(schedule_stateAt_other buried.2 avoided).trans buried.1, spared⟩

/-- **One event leaves a buried process buried**, and does not resume it. -/
theorem Buried.step {slot : Nat} {s : Scheduler} (buried : Buried slot s) (event : Event) :
    s.Spares event slot ∧ Buried slot (s.step event) := by
  cases event with
  | tick esp => exact ⟨by rintro call ⟨⟩; exact (buried.resumed esp).1, buried.schedule esp⟩
  | block waitPid => exact ⟨by rintro call ⟨⟩, buried.modifyActive _⟩
  | wake pid => exact ⟨by rintro call ⟨⟩, buried.wakeParent pid⟩
  | resume => exact ⟨by rintro call ⟨⟩, buried.modifyActive _⟩
  | exit code esp =>
    have marked := buried.markDead code
    exact ⟨by rintro call ⟨⟩; exact (marked.resumed esp).1, marked.schedule esp⟩
  | add p =>
    obtain ⟨q, there, state⟩ := Option.map_eq_some_iff.mp buried.1
    exact ⟨by rintro call ⟨⟩, Option.map_eq_some_iff.mpr ⟨q, addProcess_there p there, state⟩,
      (addProcess_current s p).symm ▸ buried.2⟩

theorem Buried.staysDead {slot : Nat} {s : Scheduler} (buried : Buried slot s) (events : List Event) :
    StaysDead slot s events := by
  induction events generalizing s with
  | nil => exact buried.1
  | cons event events ih =>
    obtain ⟨spared, next⟩ := buried.step event
    exact ⟨buried.1, spared, ih next⟩

/-! ### The exit syscall -/

theorem markDead_eq {s : Scheduler} {slot : Nat} {p : Process} (code : Int)
    (current : s.current = some slot) (there : s.processes[slot]? = some p) :
    s.markDead code = (s.modify slot fun p => { p with exitCode := code, state := .dead }).wakeParent
      (toInt32 p.pid) := by
  unfold markDead getActive modifyActive
  simp only [current, there]

theorem markDead_dead {s : Scheduler} {slot : Nat} {p : Process} (code : Int)
    (current : s.current = some slot) (there : s.processes[slot]? = some p) :
    (s.markDead code).stateAt slot = some .dead := by
  rw [markDead_eq code current there, stateAt_wakeParent _ (by decide) (by decide)]
  exact stateAt_modify_self s (fun _ => rfl) (List.getElem?_eq_some_iff.mp there).1

theorem markDead_save {s : Scheduler} {slot : Nat} {p : Process} (code : Int) (esp : Nat)
    (current : s.current = some slot) (there : s.processes[slot]? = some p) :
    (s.markDead code).current = some slot ∧ (s.markDead code).save esp = s.markDead code := by
  have still := (markDead_current s code).trans current
  refine ⟨still, save_eq_self esp ?_⟩
  unfold wasRunning
  rw [still]
  simp [markDead_dead code current there]

theorem markDead_ready_iff {s : Scheduler} {slot other : Nat} {p : Process} (code : Int)
    (current : s.current = some slot) (there : s.processes[slot]? = some p) (differs : other ≠ slot) :
    (s.markDead code).stateAt other = some .ready ↔ ∃ q ∈ s.processes[other]?,
      q.state = .ready ∨ q.state = .blocked ∧ q.waitPid = toInt32 p.pid := by
  rw [markDead_eq code current there]
  simp only [stateAt, wakeParent, List.getElem?_map, processes_modify, differs.symm, if_false,
    Option.map_id', Option.map_map]
  cases s.processes[other]? with
  | none => simp
  | some q =>
    simp only [Option.map_some, Function.comp_apply, Option.some.injEq, Option.mem_def, exists_eq_left']
    split_ifs with woken
    · simp [woken]
    · constructor
      · exact fun ready => .inl ready
      · rintro (ready | waiting)
        · exact ready
        · exact absurd waiting woken

/-- **The `Schedule` call of an exit** resumes another process exactly if one is `READY`. -/
theorem exit_spares_iff {s : Scheduler} {slot : Nat} (code : Int) (esp : Nat) (inTable : s.InTable)
    (current : s.current = some slot) :
    s.Spares (.exit code esp) slot ↔ ∃ other ≠ slot, (s.markDead code).stateAt other = some .ready := by
  have there := List.getElem?_eq_getElem (inTable slot current)
  have dead := markDead_dead code current there
  obtain ⟨still, saved⟩ := markDead_save code esp current there
  have table : (s.markDead code).InTable := by
    intro index active
    cases still.symm.trans active
    rw [markDead_eq code current there]
    simpa [wakeParent, modify] using inTable slot current
  constructor
  · intro spared
    have spared := spared _ rfl
    unfold resumed at spared
    rw [saved] at spared
    cases picked : (s.markDead code).pick with
    | none =>
      rw [picked] at spared
      exact absurd still spared
    | some index =>
      have ready := pick_isReady picked
      refine ⟨index, fun same => ?_, ready⟩
      rw [same, dead] at ready
      cases ready
  · rintro ⟨other, differs, ready⟩ call ⟨⟩
    obtain ⟨i, -, -, -, -, picked⟩ := pick_scan table ready
    unfold resumed
    rw [saved, picked]
    intro same
    cases same
    have ready := pick_isReady picked
    rw [dead] at ready
    cases ready

theorem exit_buries {s : Scheduler} {slot : Nat} {code : Int} {esp : Nat} (inTable : s.InTable)
    (current : s.current = some slot) (spared : s.Spares (.exit code esp) slot) :
    Buried slot (s.step (.exit code esp)) := by
  have there := List.getElem?_eq_getElem (inTable slot current)
  have dead := markDead_dead code current there
  have away := spared _ rfl
  rw [resumed_eq] at away
  refine ⟨?_, away⟩
  have saved : ((s.markDead code).save esp).stateAt slot = some .dead := by
    rw [(markDead_save code esp current there).2, dead]
  show ((s.markDead code).schedule esp).2.stateAt slot = some .dead
  rw [schedule_snd]
  split
  · exact saved
  · rename_i index picked
    rw [dispatch_stateAt_other, saved]
    rintro rfl
    have ready := pick_isReady picked
    rw [saved] at ready
    cases ready

theorem exitsForGood_iff {s : Scheduler} (only : s.OnlyCurrent) (loaded : s.Loaded)
    (events : List Event) : ExitsForGood s events ↔ Always step LeavesOther s events := by
  induction events generalizing s with
  | nil => exact Iff.rfl
  | cons event events ih =>
    obtain ⟨only', loaded'⟩ := step_coherent event only loaded
    rw [ExitsForGood, Always, ih only' loaded']
    refine and_congr_left fun _ => ?_
    cases event with
    | exit code esp =>
      constructor
      · intro gone slot current p there
        obtain ⟨spared, -⟩ := gone code esp rfl slot current
        obtain ⟨other, differs, ready⟩ := (exit_spares_iff code esp loaded.inTable current).mp spared
        obtain ⟨q, member, fits⟩ := (markDead_ready_iff code current there differs).mp ready
        exact ⟨other, (List.getElem?_eq_some_iff.mp member).1, differs, q, member, fits⟩
      · rintro leaves _ _ ⟨⟩ slot current
        have there := List.getElem?_eq_getElem (loaded.inTable slot current)
        obtain ⟨other, -, differs, q, member, fits⟩ := leaves slot current _ there
        have ready := (markDead_ready_iff code current there differs).mpr ⟨q, member, fits⟩
        have spared := (exit_spares_iff code esp loaded.inTable current).mpr ⟨other, differs, ready⟩
        exact ⟨spared, (exit_buries loaded.inTable current spared).staysDead events⟩
    | _ => exact ⟨fun _ => trivial, fun _ code esp same => by cases same⟩

/-- **An exited process is gone** exactly in the runs whose exits all leave another process to switch
to. -/
theorem exit_final_iff (events : List Event) : ExitsForGood init events ↔ Always step LeavesOther init events :=
  exitsForGood_iff (run_coherent []).1 (run_coherent []).2 events

/-- The only process of the table is dispatched and exits. -/
def exitAlone : List Event :=
  [.add (freshProcess 1 0x11000), .tick 0x90000, .exit 0 0x10F00]

/-- **The only process exits and is resumed**: nothing else is `READY` when it does. -/
theorem exit_alone_resumes : ¬ ∀ events, ExitsForGood init events := by
  intro final
  obtain ⟨-, -, last, -⟩ := final exitAlone
  obtain ⟨spared, -⟩ := last 0 0x10F00 rfl 0 rfl
  exact spared (_, 0x10F00) rfl (by decide)

end Scheduler

end LaylaOS.Kernel
