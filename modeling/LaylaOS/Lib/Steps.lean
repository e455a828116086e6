/-
**Runs of a labelled step relation.**

`Steps next s events t`: the relation `next` takes `s` to `t` through the listed events, in order.
The run rules are stated once for every state machine of the development: for invariants
(`Steps.invariant`), for conditions that hold at every step of a run (`Always.mono`,
`Always.iff_of_invariant`, `Always.good_or_bad`) and for simulations (`Simulates.run`,
`runAll_simulates`).
-/

import Mathlib.Tactic

namespace LaylaOS.Lib

variable {σ ε : Type}

/-- The states a list of events leads to, one `next` step for each event. -/
inductive Steps (next : σ → ε → σ → Prop) : σ → List ε → σ → Prop
  | nil (s : σ) : Steps next s [] s
  | cons {s t u : σ} {event : ε} {events : List ε} :
      next s event t → Steps next t events u → Steps next s (event :: events) u

variable {next : σ → ε → σ → Prop}

/-- **The invariant rule.** -/
theorem Steps.invariant {Inv : σ → Prop}
    (keeps : ∀ s event t, Inv s → next s event t → Inv t) {s t : σ} {events : List ε}
    (run : Steps next s events t) (start : Inv s) : Inv t := by
  induction run with
  | nil s => exact start
  | cons step _ ih => exact ih (keeps _ _ _ start step)

theorem Steps.mono {next' : σ → ε → σ → Prop} (weaker : ∀ s event t, next s event t → next' s event t)
    {s t : σ} {events : List ε} (run : Steps next s events t) : Steps next' s events t := by
  induction run with
  | nil s => exact .nil s
  | cons step _ ih => exact .cons (weaker _ _ _ step) ih

/-! ### Deterministic machines -/

/-- `P` holds of every state and event of the run that `step` makes from `s`. -/
def Always (step : σ → ε → σ) (P : σ → ε → Prop) : σ → List ε → Prop
  | _, [] => True
  | s, event :: events => P s event ∧ Always step P (step s event) events

instance Always.decidable (step : σ → ε → σ) (P : σ → ε → Prop)
    [decideP : ∀ s event, Decidable (P s event)] :
    ∀ s events, Decidable (Always step P s events)
  | _, [] => isTrue trivial
  | s, event :: events =>
    @instDecidableAnd _ _ (decideP s event) (Always.decidable step P (step s event) events)

/-- **The step-to-run rule.** -/
theorem Always.mono {step : σ → ε → σ} {P Q : σ → ε → Prop}
    (each : ∀ s event, P s event → Q s event) {s : σ} {events : List ε}
    (run : Always step P s events) : Always step Q s events := by
  induction events generalizing s with
  | nil => trivial
  | cons event events ih => exact ⟨each s event run.1, ih run.2⟩

/-- **The invariant rule** for runs that meet a condition throughout. -/
theorem Always.invariant {step : σ → ε → σ} {P : σ → ε → Prop} {Inv : σ → Prop}
    (keeps : ∀ s event, Inv s → P s event → Inv (step s event)) {s : σ} {events : List ε}
    (start : Inv s) (run : Always step P s events) : Inv (events.foldl step s) := by
  induction events generalizing s with
  | nil => exact start
  | cons event events ih => exact ih (keeps s event start run.1) run.2

theorem Always.mono_of_invariant {step : σ → ε → σ} {P Q : σ → ε → Prop} {Inv : σ → Prop}
    (each : ∀ s event, Inv s → P s event → Q s event)
    (keeps : ∀ s event, Inv s → P s event → Inv (step s event)) {s : σ} {events : List ε}
    (start : Inv s) (run : Always step P s events) : Always step Q s events := by
  induction events generalizing s with
  | nil => trivial
  | cons event events ih =>
    exact ⟨each s event start run.1, ih (keeps s event start run.1) run.2⟩

/-- Conditions that agree wherever an invariant holds, which the second of them keeps, hold
throughout the same runs. -/
theorem Always.iff_of_invariant {step : σ → ε → σ} (Inv : σ → Prop) {P Q : σ → ε → Prop}
    (each : ∀ s event, Inv s → (P s event ↔ Q s event))
    (keeps : ∀ s event, Inv s → Q s event → Inv (step s event)) {s : σ} {events : List ε}
    (start : Inv s) : Always step P s events ↔ Always step Q s events := by
  induction events generalizing s with
  | nil => exact Iff.rfl
  | cons event events ih =>
    rw [Always, Always, each s event start]
    exact and_congr_right fun holds => ih (keeps s event start holds)

theorem Always.of_forall {step : σ → ε → σ} {P : σ → ε → Prop} (each : ∀ s event, P s event) (s : σ)
    (events : List ε) : Always step P s events := by
  induction events generalizing s with
  | nil => trivial
  | cons event events ih => exact ⟨each s event, ih _⟩

/-- **The breach rule.** Where `A` holds, `P` keeps good states good, a breach of it makes them bad,
and bad states stay bad: a run ends well if it meets `P` throughout, and badly if it does not. -/
theorem Always.good_or_bad {step : σ → ε → σ} {A P : σ → ε → Prop} (Good Bad : σ → Prop)
    (keeps : ∀ s event, Good s → A s event → P s event → Good (step s event))
    (breaks : ∀ s event, Good s → A s event → ¬ P s event → Bad (step s event))
    (stays : ∀ s event, Bad s → Bad (step s event)) {s : σ} (start : Good s) {events : List ε}
    (given : Always step A s events) :
    (Always step P s events ∧ Good (events.foldl step s)) ∨
      (¬ Always step P s events ∧ Bad (events.foldl step s)) := by
  induction events generalizing s with
  | nil => exact .inl ⟨trivial, start⟩
  | cons event events ih =>
    by_cases holds : P s event
    · rcases ih (keeps s event start given.1 holds) given.2 with ⟨rest, good⟩ | ⟨broken, bad⟩
      · exact .inl ⟨⟨holds, rest⟩, good⟩
      · exact .inr ⟨fun both => broken both.2, bad⟩
    · exact .inr ⟨fun both => holds both.1,
        List.foldlRecOn events step (breaks s event start given.1 holds) fun t bad later _ =>
          stays t later bad⟩

/-! ### Simulation -/

/-- The events of one machine, read as events of another, lead from the image of a state to the image
of the next, as long as the invariant holds, which they keep. -/
def Simulates {τ δ : Type} (step : σ → ε → σ) (step' : τ → δ → τ) (abs : σ → τ) (label : ε → δ)
    (Inv : σ → Prop) : Prop :=
  ∀ s event, Inv s → Inv (step s event) ∧ abs (step s event) = step' (abs s) (label event)

section Simulation

variable {τ δ : Type} {step : σ → ε → σ} {step' : τ → δ → τ} {abs : σ → τ} {label : ε → δ}
  {Inv : σ → Prop} (simulates : Simulates step step' abs label Inv)

include simulates

/-- **The simulation rule.** -/
theorem Simulates.run {s : σ} (start : Inv s) (events : List ε) :
    abs (events.foldl step s) = (events.map label).foldl step' (abs s) := by
  induction events generalizing s with
  | nil => rfl
  | cons event events ih =>
    obtain ⟨next, same⟩ := simulates s event start
    rw [List.foldl_cons, List.map_cons, List.foldl_cons, ← same, ih next]

theorem Simulates.always_iff {P : σ → ε → Prop} {Q : τ → δ → Prop}
    (agree : ∀ s event, Q (abs s) (label event) ↔ P s event) {s : σ} (start : Inv s)
    (events : List ε) : Always step' Q (abs s) (events.map label) ↔ Always step P s events := by
  induction events generalizing s with
  | nil => exact Iff.rfl
  | cons event events ih =>
    obtain ⟨next, same⟩ := simulates s event start
    rw [List.map_cons, Always, Always, ← same, ih next, agree]

end Simulation

/-! ### Calls with results -/

section Results

variable {τ ρ : Type}

/-- A sequence of calls and their results. -/
def runAll (call : σ → ε → Option (σ × ρ)) : σ → List ε → Option (σ × List ρ)
  | s, [] => some (s, [])
  | s, event :: events => (call s event).bind fun result =>
    (runAll call result.1 events).map fun rest => (rest.1, result.2 :: rest.2)

/-- **The simulation rule for calls**: where one call has the same result on both levels, a run has the same
results on both. -/
theorem runAll_simulates (call : σ → ε → Option (σ × ρ)) (call' : τ → ε → Option (τ × ρ))
    {next : σ → ε → σ} {Inv : σ → Prop} {Ok : σ → ε → Prop} (abs : σ → τ)
    (step : ∀ s event, Inv s → Ok s event → Inv (next s event) ∧ ∃ result,
      call s event = some (next s event, result) ∧ call' (abs s) event = some (abs (next s event), result))
    {s : σ} (start : Inv s) {events : List ε} (ok : Always next Ok s events) :
    Inv (events.foldl next s) ∧ ∃ results, runAll call s events = some (events.foldl next s, results) ∧
        runAll call' (abs s) events = some (abs (events.foldl next s), results) := by
  induction events generalizing s with
  | nil => exact ⟨start, [], rfl, rfl⟩
  | cons event events ih =>
    obtain ⟨inv, result, first, first'⟩ := step s event start ok.1
    obtain ⟨last, results, rest, rest'⟩ := ih inv ok.2
    refine ⟨last, result :: results, ?_, ?_⟩
    · rw [runAll, first, Option.bind_some, rest]
      rfl
    · rw [runAll, first', Option.bind_some, rest']
      rfl

end Results

end LaylaOS.Lib
