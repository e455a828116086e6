/-
**The loops that read along a cluster chain.**

`FindEntry`, `ReadFile`, `ListDirectory`, `MarkEntryDeleted` and `AddDirEntry` follow the FAT to an end mark,
or to a cluster whose contents make them stop, and change nothing on the way. They go round for ever on a
chain that leads back to itself.
-/

import LaylaOS.Lib.Walk
import LaylaOS.Fs.Trace

namespace LaylaOS.Fs

open LaylaOS.Lib

/-- Where a loop along the FAT stops: a cluster and its contents. -/
abbrev Stops := Nat → Storage → Prop

namespace Volume

variable (v : Volume)

/-- `FindEntry` stops at an unused entry or at the one that it looks for. -/
def findStops (name83 : Name) : Stops := fun _ buffer =>
  scan findSkips name83 (entriesOf (v.clusterSize / 32) buffer) 0 ≠ .next

/-- `MarkEntryDeleted` stops there too, but it does not skip long-name entries. -/
def markStops (name83 : Name) : Stops := fun _ buffer =>
  scan (fun e => e.first == 0xE5) name83 (entriesOf (v.bufSize / 32) buffer) 0 ≠ .next

/-- `AddDirEntry` stops at an entry that is unused or deleted. -/
def addStops : Stops := fun _ buffer =>
  ((entriesOf (v.bufSize / 32) buffer).findIdx? DirEntry.isDead).isSome = true

variable (d : Disk) (stops : Stops)

/-- The loop goes on behind the cluster. -/
def Goes (c : Nat) : Prop := c < endOfChain ∧ ¬ stops c (v.readCluster d c)

/-- The clusters that the loop looks at. -/
def Visits (start c : Nat) : Prop := Comes (v.nextCluster d) (v.Goes d stops) start c

/-- From `start`, the FAT leads to an end mark or to a cluster where the loop stops. -/
def Halts (start : Nat) : Prop := ∃ clusters, Walk (v.nextCluster d) (v.Goes d stops) start clusters

variable {v d stops} {start : Nat}

theorem Visits.eq_start {c : Nat} (stopped : ¬ v.Goes d stops start) (visits : v.Visits d stops start c) :
    c = start := by
  rcases visits.cases_head with same | ⟨_, ⟨on, -⟩, -⟩
  · exact same.symm
  · exact absurd on stopped

theorem Visits.cases_next {c : Nat} (visits : v.Visits d stops start c) :
    c = start ∨ v.Visits d stops (v.nextCluster d start) c := by
  rcases visits.cases_head with same | ⟨_, ⟨-, rfl⟩, later⟩
  · exact .inl same.symm
  · exact .inr later

/-- The loop is through within `fuel` rounds. -/
def Rounds (v : Volume) (d : Disk) (stops : Stops) (fuel start : Nat) : Prop :=
  ∃ clusters, Walk (v.nextCluster d) (v.Goes d stops) start clusters ∧ clusters.length < fuel

theorem rounds_loopFuel : v.Rounds d stops loopFuel start ↔ v.Halts d stops start := by
  refine exists_congr fun clusters => and_iff_left_of_imp fun walk => ?_
  exact (walk.length_le fun c inside => inside.1).trans_lt (by decide : endOfChain < loopFuel)

theorem Rounds.halts {fuel : Nat} (rounds : v.Rounds d stops fuel start) : v.Halts d stops start :=
  rounds.imp fun _ => And.left

/-- **The rule for a loop along the FAT.** -/
theorem rounds_iff {T : Nat → Nat → Prop} (zero : ∀ c, ¬ T 0 c)
    (ended : ∀ fuel c, ¬ c < endOfChain → T (fuel + 1) c)
    (stopped : ∀ fuel c, c < endOfChain → stops c (v.readCluster d c) → T (fuel + 1) c)
    (goes : ∀ fuel c, c < endOfChain → ¬ stops c (v.readCluster d c) →
      (T (fuel + 1) c ↔ T fuel (v.nextCluster d c)))
    (fuel start : Nat) : T fuel start ↔ v.Rounds d stops fuel start := by
  refine Walk.loop_iff zero (fun fuel c out => ?_) (fun fuel c on => goes fuel c on.1 on.2) fuel start
  by_cases low : c < endOfChain
  · exact stopped fuel c low (not_not.mp fun on => out ⟨low, on⟩)
  · exact ended fuel c low

/-! ### The loops that scan clusters for a name -/

section Scans

variable {β : Type} {loop : Nat → Nat → Option β} {found : Storage → Scan} {stop ended : β}
  {hit : Nat → Nat → β} (zero : ∀ c, loop 0 c = none)
  (succ : ∀ fuel c, loop (fuel + 1) c =
    if c < endOfChain then
      match found (v.readCluster d c) with
      | .stop => some stop
      | .hit i => some (hit c i)
      | .next => loop fuel (v.nextCluster d c)
    else some ended)
include zero succ

theorem scanLoop_rounds (fuel start : Nat) : (loop fuel start).isSome ↔
    v.Rounds d (fun _ buffer => found buffer ≠ .next) fuel start := by
  refine rounds_iff (T := fun fuel c => (loop fuel c).isSome) ?_ ?_ ?_ ?_ fuel start
  · intro c
    rw [zero]
    exact Bool.false_ne_true
  · intro fuel c high
    rw [succ, if_neg high, Option.isSome_some]
  · intro fuel c low stops
    rw [succ, if_pos low]
    cases here : found (v.readCluster d c) with
    | stop => rfl
    | hit i => rfl
    | next => exact absurd here stops
  · intro fuel c low on
    rw [succ, if_pos low, not_not.mp on]

theorem scanLoop_isSome (start : Nat) : (loop loopFuel start).isSome ↔
    v.Halts d (fun _ buffer => found buffer ≠ .next) start :=
  (scanLoop_rounds zero succ loopFuel start).trans rounds_loopFuel

theorem scanLoop_agree {fuel fuel' c : Nat} {r r' : β} (one : loop fuel c = some r)
    (two : loop fuel' c = some r') : r = r' := by
  induction fuel generalizing fuel' c with
  | zero => cases (zero c).symm.trans one
  | succ fuel ih =>
    cases fuel' with
    | zero => cases (zero c).symm.trans two
    | succ fuel' =>
      rw [succ] at one two
      split_ifs at one two with low
      · cases here : found (v.readCluster d c) with
        | stop =>
          rw [here] at one two
          exact Option.some.inj (one.symm.trans two)
        | hit i =>
          rw [here] at one two
          exact Option.some.inj (one.symm.trans two)
        | next =>
          rw [here] at one two
          exact ih one two
      · exact Option.some.inj (one.symm.trans two)

variable (found) in
theorem scanLoop_enough {fuel : Nat} {r : β} (returned : loop fuel start = some r) :
    loop loopFuel start = some r := by
  have rounds := (scanLoop_rounds zero succ fuel start).mp (by rw [returned]; rfl)
  obtain ⟨r', again⟩ := Option.isSome_iff_exists.mp ((scanLoop_isSome zero succ start).mpr rounds.halts)
  rw [again, scanLoop_agree zero succ returned again]

end Scans

theorem findEntry_of_run {fuel dirCluster : Nat} {name : List UInt8} {r : Option DirEntry}
    (returned : (Run.findEntry v fuel d dirCluster name).result = some r) :
    v.findEntry d dirCluster name = some r := by
  rw [Run.findEntry, Run.findEntryLoop_result] at returned
  exact scanLoop_enough (fun buffer => scan findSkips (toShortName name)
    (entriesOf (v.clusterSize / 32) buffer) 0) (fun _ => rfl) (fun _ _ => rfl) returned

theorem resolveParentLoop_of_run {fuel dirCluster : Nat} {names : List (List UInt8)}
    {r : Option (Nat × List UInt8)}
    (returned : (Run.resolveParentLoop v fuel d dirCluster names).result = some r) :
    v.resolveParentLoop d dirCluster names = some r := by
  fun_induction resolveParentLoop v d dirCluster names with
  | case1 => exact returned
  | case2 => exact returned
  | case3 dirCluster name next rest ih =>
    rw [Run.resolveParentLoop, Traced.result_bind, Option.bind_eq_some_iff] at returned
    obtain ⟨found, lookup, later⟩ := returned
    refine Option.bind_eq_some_iff.mpr ⟨found, findEntry_of_run lookup, ?_⟩
    cases found with
    | none => exact later
    | some entry =>
      dsimp only at later ⊢
      split_ifs at later ⊢ with directory
      · exact ih entry later
      · exact later

theorem resolveParentDir_of_run {fuel : Nat} {path : CString} {r : Option (Nat × List UInt8)}
    (returned : (Run.resolveParentDir v fuel d path).result = some r) :
    v.resolveParentDir d path = some r :=
  resolveParentLoop_of_run returned

/-! ### The other loops -/

end Volume

end LaylaOS.Fs
