/-
**Which context switches keep the stack pointer.**

`Schedule(esp)` saves `esp` only for a process it finds `RUNNING`. A process that loses the CPU
inside a blocking syscall is `BLOCKED` (or, once woken, `READY`) while it still executes on its
kernel stack, and is switched out with the stack pointer of an earlier interruption.

* `context_preserved` — a run whose `Schedule` calls all find such a table keeps every context.
-/

import LaylaOS.Kernel.Scheduler

namespace LaylaOS.Kernel

open LaylaOS.Lib

namespace Scheduler

/-- The event makes a `Schedule` call that picks `slot`. -/
def Picks (s : Scheduler) (event : Event) (slot : Nat) : Prop :=
  ∃ call ∈ s.scheduleCall event, (call.1.save call.2).pick = some slot

/-- One event that does not give the CPU to `slot`. -/
def StepAvoiding (slot : Nat) (s : Scheduler) (event : Event) (t : Scheduler) : Prop :=
  t = s.step event ∧ ¬ s.Picks event slot

/-- The `Schedule` call an event makes gives the CPU from a process that is not `DEAD` to another
one only with the interrupted stack pointer saved, so that the next `Schedule` call that picks the
process returns that stack pointer. -/
def SwitchSaves (s : Scheduler) (event : Event) : Prop :=
  ∀ call ∈ s.scheduleCall event, ∀ slot phase other,
    call.1.current = some slot → call.1.stateAt slot = some phase → phase ≠ .dead →
    (call.1.schedule call.2).2.current = some other → other ≠ slot →
    (call.1.schedule call.2).2.espAt slot = some call.2 ∧
    ∀ events t, Steps (StepAvoiding slot) (call.1.schedule call.2).2 events t →
      ∀ event', ∀ back ∈ t.scheduleCall event', (back.1.save back.2).pick = some slot →
        (back.1.schedule back.2).1 = call.2

/-- The `Schedule` call an event makes finds its process `RUNNING` or `DEAD`, or finds no other
process `READY`. -/
def SavesOrStays (s : Scheduler) (event : Event) : Prop :=
  ∀ call ∈ s.scheduleCall event, ∀ slot ∈ call.1.current,
    call.1.stateAt slot = some .blocked ∨ call.1.stateAt slot = some .ready →
    ∀ other < call.1.processes.length, other ≠ slot → call.1.stateAt other ≠ some .ready

instance (s : Scheduler) (event : Event) : Decidable (s.SavesOrStays event) := by
  unfold SavesOrStays
  infer_instance

/-! ### A process off the CPU -/

/-- The state between two selections of a process: it is not the active one, and its saved stack
pointer is fixed. -/
def Parked (slot saved : Nat) (s : Scheduler) : Prop :=
  s.current ≠ some slot ∧ s.espAt slot = some saved

theorem Parked.modifyActive {slot saved : Nat} {s : Scheduler} (parked : Parked slot saved s)
    (change : Process → Process) : Parked slot saved (s.modifyActive change) := by
  refine ⟨?_, ?_⟩
  · rw [modifyActive_current]
    exact parked.1
  · rw [espAt, modifyActive_other change parked.1]
    exact parked.2

theorem Parked.wakeParent {slot saved : Nat} {s : Scheduler} (parked : Parked slot saved s)
    (pid : Int) : Parked slot saved (s.wakeParent pid) :=
  ⟨parked.1, by rw [espAt_wakeParent]; exact parked.2⟩

theorem Parked.markDead {slot saved : Nat} {s : Scheduler} (parked : Parked slot saved s)
    (code : Int) : Parked slot saved (s.markDead code) := by
  unfold Scheduler.markDead
  split
  · exact parked
  · exact (parked.modifyActive _).wakeParent _

theorem Parked.schedule {slot saved : Nat} {s : Scheduler} (parked : Parked slot saved s)
    (esp : Nat) (avoided : (s.save esp).pick ≠ some slot) :
    Parked slot saved (s.schedule esp).2 := by
  constructor
  · rcases picked : (s.save esp).pick with _ | index
    · rw [schedule_current_none picked]
      exact parked.1
    · rw [schedule_current_some picked]
      exact fun same => avoided (picked.trans same)
  · rw [schedule_espAt, save_espAt_other esp parked.1]
    exact parked.2

/-- **One event keeps a parked process parked** unless it picks the process. -/
theorem Parked.step {slot saved : Nat} {s t : Scheduler} {event : Event}
    (parked : Parked slot saved s) (next : StepAvoiding slot s event t) : Parked slot saved t := by
  obtain ⟨rfl, avoided⟩ := next
  cases event with
  | tick esp => exact parked.schedule esp fun picked => avoided ⟨(s, esp), rfl, picked⟩
  | block waitPid => exact parked.modifyActive _
  | wake pid => exact parked.wakeParent pid
  | resume => exact parked.modifyActive _
  | exit code esp =>
    exact (parked.markDead code).schedule esp fun picked =>
      avoided ⟨(s.markDead code, esp), rfl, picked⟩
  | add p =>
    obtain ⟨q, there, stored⟩ := Option.map_eq_some_iff.mp parked.2
    exact ⟨(addProcess_current s p).symm ▸ parked.1,
      Option.map_eq_some_iff.mpr ⟨q, addProcess_there p there, stored⟩⟩

/-- **The next pick of a parked process returns its saved stack pointer.** -/
theorem Parked.schedule_fst {slot saved : Nat} {t : Scheduler} (parked : Parked slot saved t)
    {event : Event} {back : Scheduler × Nat} (call : back ∈ t.scheduleCall event)
    (picked : (back.1.save back.2).pick = some slot) : (back.1.schedule back.2).1 = saved := by
  have found : Parked slot saved back.1 := by
    cases event with
    | tick esp =>
      cases call
      exact parked
    | exit code esp =>
      cases call
      exact parked.markDead code
    | block _ => cases call
    | wake _ => cases call
    | resume => cases call
    | add _ => cases call
  exact schedule_fst_other picked found.1 found.2

/-! ### Switching out -/

theorem other_ready_of_switch {s : Scheduler} {esp slot other : Nat} (idle : s.wasRunning = false)
    (current : s.current = some slot) (switched : (s.schedule esp).2.current = some other)
    (different : other ≠ slot) : other < s.processes.length ∧ s.stateAt other = some .ready := by
  rcases picked : (s.save esp).pick with _ | index
  · rw [schedule_current_none picked, current] at switched
    exact absurd (Option.some.inj switched).symm different
  · rw [schedule_current_some picked] at switched
    cases switched
    rw [save_eq_self esp idle] at picked
    exact ⟨pick_lt picked, pick_isReady picked⟩

/-- **One `Schedule` call.** Where the interrupted process is `RUNNING` or `DEAD`, or nothing else
is `READY`, the call saves what it takes the CPU from. -/
theorem switchSaves_of_savesOrStays {s : Scheduler} {event : Event} (safe : s.SavesOrStays event) :
    s.SwitchSaves event := by
  intro call made slot phase other current state alive switched different
  have stored : (call.1.schedule call.2).2.espAt slot = some call.2 := by
    rw [schedule_espAt]
    by_cases running : call.1.stateAt slot = some .running
    · exact save_espAt_running call.2 current running
    · have idle : call.1.wasRunning = false := by
        unfold wasRunning
        rw [current]
        exact decide_eq_false running
      obtain ⟨bound, ready⟩ := other_ready_of_switch idle current switched different
      cases phase with
      | running => exact absurd state running
      | dead => exact absurd rfl alive
      | ready => exact absurd ready (safe call made slot current (.inr state) other bound different)
      | blocked =>
        exact absurd ready (safe call made slot current (.inl state) other bound different)
  refine ⟨stored, fun events t run event' back again picked => ?_⟩
  have leaves : Parked slot call.2 (call.1.schedule call.2).2 :=
    ⟨fun same => different (Option.some.inj (switched.symm.trans same)), stored⟩
  exact (run.invariant (fun _ _ _ parked next => parked.step next) leaves).schedule_fst again picked

/-! ### Runs -/

/-- **Every context survives a run in which no `Schedule` call takes the CPU from a blocked or
woken process.** -/
theorem context_preserved (events : List Event) (safe : Always step SavesOrStays Scheduler.init events) :
    Always step SwitchSaves Scheduler.init events :=
  safe.mono fun _ _ => switchSaves_of_savesOrStays

/-- Two processes take turns for three ticks, then the second one exits. -/
def turns : List Event :=
  [.add (freshProcess 1 0x11000), .add (freshProcess 2 0x12000), .tick 0x90000, .tick 0x10F00,
    .tick 0x11F00, .tick 0x10E00, .exit 0 0x11E00]

theorem context_preserved_turns :
    Always step SavesOrStays Scheduler.init turns ∧ Always step SwitchSaves Scheduler.init turns :=
  ⟨by decide, context_preserved turns (by decide)⟩

/-- The first process blocks in the read syscall, and the next tick finds the second one ready. -/
def blockedReader : List Event :=
  [.add (freshProcess 1 0x11000), .add (freshProcess 2 0x12000), .tick 0x90000, .block (-2),
    .tick 0x10F00]

/-- **A reader blocked on the keyboard is switched out with its old stack pointer.** -/
theorem blocked_switch_loses_context : ¬ ∀ events, Always step SwitchSaves Scheduler.init events := by
  intro always
  have last := (always blockedReader).2.2.2.2.1
  have saved := (last (_, 0x10F00) rfl 0 .blocked 1 (by decide) (by decide) (by decide) (by decide)
    (by decide)).1
  revert saved
  decide

end Scheduler

end LaylaOS.Kernel
