/-
**Round robin never overtakes twice.**

`Schedule` scans the table from the slot after `current_index`, around the end of the table, so what
it selects while a process waits lies between `current_index` and the slot of that process. The
interval is stated without the size of the table, and so outlasts the growth of the table.

* `no_double_overtake` — while a process stays `READY`, no slot is selected twice.
-/

import LaylaOS.Kernel.Coherence

namespace LaylaOS.Kernel

open LaylaOS.Lib

namespace Scheduler

/-- The slot that the `Schedule` call of an event selects. -/
def selected (s : Scheduler) (event : Event) : Option Nat :=
  (s.scheduleCall event).bind fun call => (call.1.save call.2).pick

/-- The slots that a run selects. -/
def selections : Scheduler → List Event → List Nat
  | _, [] => []
  | s, event :: events => (s.selected event).toList ++ selections (s.step event) events

/-- The process is `READY` in every state of the run. -/
def StaysReady (slot : Nat) : Scheduler → List Event → Prop
  | s, [] => s.stateAt slot = some .ready
  | s, event :: events => s.stateAt slot = some .ready ∧ StaysReady slot (s.step event) events

theorem StaysReady.head {slot : Nat} {s : Scheduler} {events : List Event}
    (ready : StaysReady slot s events) : s.stateAt slot = some .ready := by
  cases events with
  | nil => exact ready
  | cons event events => exact ready.1

/-! ### Slots between the current one and another -/

/-- Going up from `current_index` and around the table, `other` comes before `slot`. -/
def Between (current : Option Nat) (slot other : Nat) : Prop :=
  match current with
  | none => other < slot
  | some index => if index < slot then index < other ∧ other < slot else index < other ∨ other < slot

theorem Between.shrinks {current : Option Nat} {slot index other : Nat}
    (passed : Between current slot index) (later : Between (some index) slot other) :
    Between current slot other ∧ other ≠ index := by
  unfold Between at *
  cases current with
  | none =>
    dsimp only at *
    split_ifs at later
    omega
  | some start =>
    dsimp only at *
    split_ifs at * <;> omega

theorem add_mod_cases {index i count : Nat} (low : index < count) (short : i ≤ count) :
    (index + i) % count = if index + i < count then index + i else index + i - count := by
  split_ifs with inside
  · exact Nat.mod_eq_of_lt inside
  · rw [Nat.mod_eq_sub_mod (by omega), Nat.mod_eq_of_lt (by omega)]

theorem probe_between {s : Scheduler} (inTable : s.InTable) {i j : Nat} (earlier : i < j)
    (last : j < s.processes.length) : Between s.current (s.probe (j + 1)) (s.probe (i + 1)) := by
  unfold probe Between
  cases current : s.current with
  | none =>
    simp only [Nat.add_sub_cancel]
    rwa [Nat.mod_eq_of_lt last, Nat.mod_eq_of_lt (earlier.trans last)]
  | some index =>
    have low := inTable index current
    simp only
    rw [add_mod_cases low (by omega), add_mod_cases low (by omega)]
    split_ifs <;> omega

/-- **What `Schedule` selects** lies between the current slot and any other `READY` one. -/
theorem pick_between {s : Scheduler} (inTable : s.InTable) {slot index : Nat}
    (ready : s.stateAt slot = some .ready) (picked : s.pick = some index) (other : index ≠ slot) :
    Between s.current slot index := by
  obtain ⟨i, j, inside, probed, first, selected⟩ := pick_scan inTable ready
  cases picked.symm.trans selected
  rcases Nat.lt_or_eq_of_le first with earlier | same
  · rw [← probed]
    exact probe_between inTable earlier inside
  · exact absurd (by rw [same, probed]) other

/-! ### One event -/

/-- A process that is `READY` after a `Schedule` call was so when the call scanned the table, and was
not selected. -/
theorem schedule_ready {s : Scheduler} {slot esp : Nat}
    (ready : (s.schedule esp).2.stateAt slot = some .ready) :
    (s.save esp).stateAt slot = some .ready ∧ (s.save esp).pick ≠ some slot := by
  rw [schedule_snd] at ready
  split at ready
  · rename_i none
    exact ⟨ready, by rw [none]; nofun⟩
  · rename_i index picked
    have other : index ≠ slot := by
      rintro rfl
      rw [dispatch_stateAt_self (pick_lt picked)] at ready
      cases ready
    refine ⟨?_, by rw [picked]; exact fun same => other (Option.some.inj same)⟩
    rwa [dispatch_stateAt_other other] at ready

/-- A `Schedule` call after which a process is `READY` selects nothing and leaves `current_index`, or
selects a slot before that process and moves there. -/
theorem schedule_between {s : Scheduler} {slot esp : Nat} (inTable : s.InTable)
    (ready : (s.schedule esp).2.stateAt slot = some .ready) :
    ((s.save esp).pick = none ∧ (s.schedule esp).2.current = s.current) ∨
      ∃ index, (s.save esp).pick = some index ∧ (s.schedule esp).2.current = some index ∧
        Between s.current slot index := by
  obtain ⟨waiting, avoided⟩ := schedule_ready ready
  cases picked : (s.save esp).pick with
  | none => exact .inl ⟨rfl, schedule_current_none picked⟩
  | some index =>
    refine .inr ⟨index, rfl, schedule_current_some picked, ?_⟩
    rw [← save_current s esp]
    exact pick_between (inTable.save esp) waiting picked fun same => avoided (by rw [picked, same])

/-- **One event**, as one `Schedule` call; the other events select nothing. -/
theorem step_between {s : Scheduler} {slot : Nat} (event : Event) (only : s.OnlyCurrent)
    (loaded : s.Loaded) (ready : (s.step event).stateAt slot = some .ready) :
    (s.selected event = none ∧ (s.step event).current = s.current) ∨
      ∃ index, s.selected event = some index ∧ (s.step event).current = some index ∧
        Between s.current slot index := by
  cases event with
  | tick esp => exact schedule_between loaded.inTable ready
  | block waitPid => exact .inl ⟨rfl, modifyActive_current s _⟩
  | wake pid => exact .inl ⟨rfl, rfl⟩
  | resume => exact .inl ⟨rfl, modifyActive_current s _⟩
  | exit code esp =>
    rw [← markDead_current s code]
    exact schedule_between (markDead_coherent code only loaded).2.inTable ready
  | add p => exact .inl ⟨rfl, addProcess_current s p⟩

/-- **A run in which a process waits** selects only slots that come before it, and each once. -/
theorem selections_between {s : Scheduler} {slot : Nat} {events : List Event} (only : s.OnlyCurrent)
    (loaded : s.Loaded) (ready : StaysReady slot s events) :
    (∀ index ∈ selections s events, Between s.current slot index) ∧ (selections s events).Nodup := by
  induction events generalizing s with
  | nil => exact ⟨by simp [selections], List.nodup_nil⟩
  | cons event events ih =>
    obtain ⟨only', loaded'⟩ := step_coherent event only loaded
    obtain ⟨rest, once⟩ := ih only' loaded' ready.2
    rw [selections]
    rcases step_between event only loaded ready.2.head with
      ⟨nothing, same⟩ | ⟨index, one, moved, passed⟩
    · rw [nothing]
      rw [same] at rest
      exact ⟨rest, once⟩
    · rw [moved] at rest
      rw [one]
      refine ⟨?_, List.nodup_cons.mpr ⟨fun again => ?_, once⟩⟩
      · intro other member
        rcases List.mem_cons.mp member with rfl | later
        · exact passed
        · exact (passed.shrinks (rest other later)).1
      · exact (passed.shrinks (rest index again)).2 rfl

/-- **Round robin never overtakes twice**: in every part of a run in which a process stays `READY`, no
process is selected twice. -/
theorem no_double_overtake (earlier part : List Event) (slot : Nat)
    (ready : StaysReady slot (run earlier) part) : (selections (run earlier) part).Nodup :=
  (selections_between (run_coherent earlier).1 (run_coherent earlier).2 ready).2

def threeProcesses : List Event :=
  [.add (freshProcess 1 0x11000), .add (freshProcess 2 0x12000), .add (freshProcess 3 0x13000)]

/-- The third process waits while the first blocks, the second runs and a fourth is added. -/
def thirdWaits : List Event :=
  [.tick 0x90000, .add (freshProcess 4 0x14000), .block 2, .tick 0x10F00, .wake 2]

theorem no_double_overtake_third : selections (run threeProcesses) thirdWaits = [0, 1] ∧
      (selections (run threeProcesses) thirdWaits).Nodup := by
  refine ⟨by decide, no_double_overtake threeProcesses thirdWaits 2 ?_⟩
  exact ⟨by decide, by decide, by decide, by decide, by decide, rfl⟩

end Scheduler

end LaylaOS.Kernel
