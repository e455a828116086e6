/-
**Directory listings** (`ListDirectory`, `ListDirectoryToBuffer`).

Both walk a directory up to the first 0x00 entry and print the entries that are neither deleted, nor
long-name entries, nor begin with a dot. `ListDirectory` prints two columns through a buffer of 256
bytes, `ListDirectoryToBuffer` a line for each entry.

* `listing_complete` — the chunks it hands on are that text, and its names are the lines of
  `ListDirectoryToBuffer`.
-/

import Mathlib.Data.Nat.Digits.Defs
import LaylaOS.Lib.Output
import LaylaOS.Fs.Seek

namespace LaylaOS.Fs

open LaylaOS.Lib

/-! ### `fat_output_*` -/

/-- `fat_output_char` with `cap` 256; `SetShellOutput` takes the chunks. -/
def fatOutputChar (o : Output UInt8) (c : UInt8) : Output UInt8 := o.push 256 c

/-- `fat_output_str`. -/
def fatOutputStr (o : Output UInt8) (s : List UInt8) : Output UInt8 := s.foldl fatOutputChar o

/-- The loop of `fat_output_u32` that fills `digits`, lowest digit first. -/
def u32Digits : Nat → Nat → List UInt8
  | 0, _ => []
  | room + 1, value =>
    if 0 < value then UInt8.ofNat (48 + value % 10) :: u32Digits room (value / 10) else []

/-- `fat_output_u32`. -/
def fatOutputU32 (o : Output UInt8) (value : Nat) : Output UInt8 :=
  if value = 0 then fatOutputChar o 48 else fatOutputStr o (u32Digits 10 value).reverse

/-! ### `ListDirectory` -/

/-- The bytes of a name that are printed: no spaces, and a dot in front of an extension. -/
def printed (name83 : Name) : List UInt8 :=
  ((List.ofFn name83).take 8).filter (· ≠ 32) ++
    if name83 8 ≠ 32 then 46 :: ((List.ofFn name83).drop 8).filter (· ≠ 32) else []

/-- The name of an entry as both functions print it. -/
def nameText (e : DirEntry) : List UInt8 := printed e.name ++ if e.isDirectory then [47] else []

/-- The entries that are passed over. -/
def listSkips (e : DirEntry) : Bool := e.first == 0xE5 || e.attributes == 0x0F || e.first == 46

/-- One entry: its name, padded to 13 characters, `<DIR>` or its size, and the end of a line or two
spaces. `name_len` is the length of the name, `rendered` the number of entries so far. -/
def renderEntry (state : Output UInt8 × Nat) (e : DirEntry) : Output UInt8 × Nat :=
  let o := fatOutputStr state.1 (nameText e)
  let o := fatOutputStr o (List.replicate (13 - (nameText e).length) 32)
  let o := if e.isDirectory then fatOutputStr o [60, 68, 73, 82, 62] else fatOutputU32 o e.size
  let rendered := (state.2 + 1) % 2 ^ 32
  if rendered % 2 = 0 then (fatOutputChar o 10, rendered)
  else (fatOutputChar (fatOutputChar o 32) 32, rendered)

/-- The loop over the entries of a cluster: the state behind it, and `done`. -/
def renderEntries : List DirEntry → Output UInt8 × Nat → (Output UInt8 × Nat) × Bool
  | [], state => (state, false)
  | e :: rest, state =>
    if e.first = 0 then (state, true)
    else if listSkips e then renderEntries rest state
    else renderEntries rest (renderEntry state e)

namespace Volume

variable (v : Volume) (d : Disk)

/-- The loop over the clusters. -/
def renderLoop : Nat → Nat → Output UInt8 × Nat → Option (Output UInt8 × Nat)
  | 0, _, _ => none
  | fuel + 1, cluster, state =>
    if cluster < endOfChain then
      let (state, done) :=
        renderEntries (entriesOf (v.clusterSize / 32) (v.readCluster d cluster)) state
      if done then some state else renderLoop fuel (v.nextCluster d cluster) state
    else some state

/-- The directory a path leads to, as both functions find it. -/
def directoryAt (path : CString) : Option (Option Nat) := do
  match ← v.resolvePath d path with
  | none => return none
  | some .root => return some v.bpb.rootCluster
  | some (.entry e) => if e.isDirectory then return some e.startCluster else return none

/-- `ListDirectory`: the output it leaves, or `none` where it returns false. `out` holds anything at
first. -/
def listDirectoryOutput (out : Nat → UInt8) (path : CString) : Option (Option (Output UInt8)) := do
  match ← v.directoryAt d path with
  | none => return none
  | some cluster =>
    let (o, rendered) ← v.renderLoop d loopFuel cluster (⟨out, 0, [], []⟩, 0)
    let o := if rendered % 2 ≠ 0 then fatOutputChar o 10 else o
    return some o.flush

/-! ### `ListDirectoryToBuffer` -/

/-- The loop over the entries of a cluster: the bytes stored behind those in front, and `done`. -/
def lineEntries : List DirEntry → List UInt8 → List UInt8 × Bool
  | [], buf => (buf, false)
  | e :: rest, buf =>
    if e.first = 0 then (buf, true)
    else if listSkips e then lineEntries rest buf
    else lineEntries rest (buf ++ nameText e ++ [10])

def lineLoop : Nat → Nat → List UInt8 → Option (List UInt8)
  | 0, _, _ => none
  | fuel + 1, cluster, buf =>
    if cluster < endOfChain then
      let (buf, done) := lineEntries (entriesOf (v.bufSize / 32) (v.readCluster d cluster)) buf
      if done then some buf else lineLoop fuel (v.nextCluster d cluster) buf
    else some buf

/-- `ListDirectoryToBuffer`: the `*len` bytes it stores, or `none` where it returns false. -/
def listDirectoryToBuffer (path : CString) : Option (Option (List UInt8)) := do
  match ← v.directoryAt d path with
  | none => return none
  | some cluster => return some (← v.lineLoop d loopFuel cluster [])

/-! ### What is to be printed -/

/-- The entries from a cluster on, up to the end of the first cluster with a 0x00 entry. -/
def slotsFrom : Nat → Nat → Option (List DirEntry)
  | 0, _ => none
  | fuel + 1, cluster =>
    if cluster < endOfChain then
      let entries := entriesOf (v.clusterSize / 32) (v.readCluster d cluster)
      if entries.any (·.first == 0) then some entries
      else (slotsFrom fuel (v.nextCluster d cluster)).map (entries ++ ·)
    else some []

end Volume

/-- The live entries in front of the first 0x00 entry that are no long-name entries and do not begin with
a dot. -/
def listedIn (entries : List DirEntry) : List DirEntry :=
  (entries.takeWhile (·.first ≠ 0)).filter fun e => !listSkips e

/-- A number in decimal. -/
def decimal (value : Nat) : List UInt8 :=
  if value = 0 then [48] else ((Nat.digits 10 value).map fun digit => UInt8.ofNat (48 + digit)).reverse

/-- An entry without what is behind it. -/
def cell (e : DirEntry) : List UInt8 :=
  nameText e ++ List.replicate (13 - (nameText e).length) 32 ++
    if e.isDirectory then [60, 68, 73, 82, 62] else decimal e.size

/-- Entries in two columns, the first one being that of number `n`. -/
def columns : Nat → List DirEntry → List UInt8
  | _, [] => []
  | n, e :: rest => cell e ++ (if n % 2 = 0 then [32, 32] else [10]) ++ columns (n + 1) rest

/-- What `ListDirectory` prints: two columns, and the end of a line that is not full. -/
def rendering (entries : List DirEntry) : List UInt8 :=
  columns 0 entries ++ if entries.length % 2 = 0 then [] else [10]

/-- What `ListDirectoryToBuffer` stores: a line for each name. -/
def lines (entries : List DirEntry) : List UInt8 := entries.flatMap fun e => nameText e ++ [10]

namespace Volume

variable (v : Volume) (d : Disk)

/-- The entries to be printed for a path. -/
def listedAt (path : CString) : Option (Option (List DirEntry)) := do
  match ← v.directoryAt d path with
  | none => return none
  | some cluster => return some (listedIn (← v.slotsFrom d loopFuel cluster))

end Volume

/-! ### Entries -/

theorem listed_cons_zero {e : DirEntry} (zero : e.first = 0) (rest : List DirEntry) :
    listedIn (e :: rest) = [] := by
  rw [listedIn, List.takeWhile_cons_of_neg (by simpa using zero), List.filter_nil]

theorem listed_cons_skip {e : DirEntry} (live : e.first ≠ 0) (skipped : listSkips e = true)
    (rest : List DirEntry) : listedIn (e :: rest) = listedIn rest := by
  rw [listedIn, List.takeWhile_cons_of_pos (by simpa using live), List.filter_cons_of_neg (by simp [skipped])]
  rfl

theorem listed_cons_shown {e : DirEntry} (live : e.first ≠ 0) (shown : ¬ listSkips e = true)
    (rest : List DirEntry) : listedIn (e :: rest) = e :: listedIn rest := by
  rw [listedIn, List.takeWhile_cons_of_pos (by simpa using live), List.filter_cons_of_pos (by simp [shown])]
  rfl

theorem listed_append {here later : List DirEntry} (open' : here.any (·.first == 0) = false) :
    listedIn (here ++ later) = listedIn here ++ listedIn later := by
  have all : ∀ e ∈ here, decide (e.first ≠ 0) = true := by
    simpa using open'
  rw [listedIn, List.takeWhile_append_of_pos all, List.filter_append, listedIn,
    List.takeWhile_eq_self_iff.mpr all]
  rfl

theorem columns_append (n : Nat) (here later : List DirEntry) :
    columns n (here ++ later) = columns n here ++ columns (n + here.length) later := by
  induction here generalizing n with
  | nil => rfl
  | cons e here ih =>
    have next : n + 1 + here.length = n + (e :: here).length := by
      rw [List.length_cons]
      omega
    rw [List.cons_append, columns, columns, ih, next]
    simp only [List.append_assoc]

theorem u32Digits_eq {room value : Nat} (fits : value < 10 ^ room) :
    u32Digits room value = (Nat.digits 10 value).map fun digit => UInt8.ofNat (48 + digit) := by
  induction room generalizing value with
  | zero =>
    rw [Nat.lt_one_iff.mp fits]
    rfl
  | succ room ih =>
    rw [u32Digits]
    rcases Nat.eq_zero_or_pos value with rfl | positive
    · rfl
    · rw [if_pos positive, Nat.digits_def' (by decide) positive, List.map_cons,
        ih (Nat.div_lt_of_lt_mul (by rwa [Nat.pow_succ', Nat.mul_comm 10] at *))]

theorem emits_fatOutputStr (o : Output UInt8) (s : List UInt8) : Output.Emits 256 o (fatOutputStr o s) s :=
  Output.emits_foldl (by decide) s o

theorem emits_fatOutputChar (o : Output UInt8) (c : UInt8) : Output.Emits 256 o (fatOutputChar o c) [c] :=
  Output.emits_push (by decide) o c

theorem emits_fatOutputU32 (o : Output UInt8) {value : Nat} (word : value < 2 ^ 32) :
    Output.Emits 256 o (fatOutputU32 o value) (decimal value) := by
  unfold fatOutputU32 decimal
  split
  · exact emits_fatOutputChar o 48
  · rw [u32Digits_eq (word.trans (by decide))]
    exact emits_fatOutputStr o _

/-! ### The walk of `ListDirectory` -/

/-- Behind `n` entries, in a state that has printed as many, the entries are printed in columns. -/
structure Prints (n : Nat) (state state' : Output UInt8 × Nat) (entries : List DirEntry) : Prop where
  emits : Output.Emits 256 state.1 state'.1 (columns n entries)
  parity : state'.2 % 2 = (n + entries.length) % 2

theorem Prints.append {n : Nat} {state state' state'' : Output UInt8 × Nat}
    {here later : List DirEntry} (one : Prints n state state' here)
    (two : Prints (n + here.length) state' state'' later) : Prints n state state'' (here ++ later) := by
  refine ⟨?_, ?_⟩
  · rw [columns_append]
    exact one.emits.trans two.emits
  · rw [two.parity, List.length_append, Nat.add_assoc]

theorem Prints.nil {n : Nat} {state : Output UInt8 × Nat} (parity : state.2 % 2 = n % 2) :
    Prints n state state [] :=
  ⟨.refl state.1, parity⟩

theorem size_lt (e : DirEntry) : e.size < 2 ^ 32 := readLE_lt e.bytes 28 4

theorem columns_singleton (n : Nat) (e : DirEntry) :
    columns n [e] = cell e ++ if n % 2 = 0 then [32, 32] else [10] :=
  List.append_nil _

theorem emits_cell (o : Output UInt8) (e : DirEntry) : Output.Emits 256 o
      (let o := fatOutputStr (fatOutputStr o (nameText e)) (List.replicate (13 - (nameText e).length) 32)
      if e.isDirectory then fatOutputStr o [60, 68, 73, 82, 62] else fatOutputU32 o e.size) (cell e) := by
  apply ((emits_fatOutputStr o (nameText e)).trans (emits_fatOutputStr _ _)).trans
  split
  · exact emits_fatOutputStr _ _
  · exact emits_fatOutputU32 _ (size_lt e)

theorem renderEntry_prints {n : Nat} {state : Output UInt8 × Nat} (parity : state.2 % 2 = n % 2)
    (e : DirEntry) : Prints n state (renderEntry state e) [e] := by
  have next : (state.2 + 1) % 2 ^ 32 % 2 = (n + 1) % 2 := by omega
  have shown := emits_cell state.1 e
  unfold renderEntry
  simp only at shown ⊢
  generalize (if e.isDirectory = true then _ else _ : Output UInt8) = o at shown ⊢
  by_cases even : n % 2 = 0
  · rw [if_neg (by omega)]
    refine ⟨?_, next⟩
    rw [columns_singleton, if_pos even]
    exact shown.trans ((emits_fatOutputChar o 32).trans (emits_fatOutputChar _ 32))
  · rw [if_pos (by omega)]
    refine ⟨?_, next⟩
    rw [columns_singleton, if_neg even]
    exact shown.trans (emits_fatOutputChar o 10)

theorem renderEntries_prints (entries : List DirEntry) {n : Nat} {state : Output UInt8 × Nat}
    (parity : state.2 % 2 = n % 2) :
    Prints n state (renderEntries entries state).1 (listedIn entries) ∧
      (renderEntries entries state).2 = entries.any (·.first == 0) := by
  induction entries generalizing n state with
  | nil => exact ⟨.nil parity, rfl⟩
  | cons e rest ih =>
    rw [renderEntries, List.any_cons]
    by_cases zero : e.first = 0
    · rw [if_pos zero, listed_cons_zero zero, zero]
      exact ⟨.nil parity, rfl⟩
    have open' : (e.first == 0) = false := by simpa using zero
    rw [if_neg zero, open', Bool.false_or]
    by_cases skipped : listSkips e = true
    · rw [if_pos skipped, listed_cons_skip zero skipped]
      exact ih parity
    · have one := renderEntry_prints parity e
      obtain ⟨later, ends⟩ := ih one.parity
      rw [if_neg skipped, listed_cons_shown zero skipped]
      exact ⟨one.append later, ends⟩

theorem Prints.finish {out : Nat → UInt8} {state : Output UInt8 × Nat} {entries : List DirEntry}
    (prints : Prints 0 (⟨out, 0, [], []⟩, 0) state entries) :
    (if state.2 % 2 ≠ 0 then fatOutputChar state.1 10 else state.1).flush.chunks.flatten = rendering entries ∧
      (if state.2 % 2 ≠ 0 then fatOutputChar state.1 10 else state.1).flush.Within 256 := by
  have parity := prints.parity
  rw [Nat.zero_add] at parity
  have ends : Output.Emits 256 state.1 (if state.2 % 2 ≠ 0 then fatOutputChar state.1 10 else state.1)
      (if entries.length % 2 = 0 then [] else [10]) := by
    rw [parity]
    by_cases even : entries.length % 2 = 0
    · rw [if_neg (not_not.mpr even), if_pos even]
      exact .refl state.1
    · rw [if_pos even, if_neg even]
      exact emits_fatOutputChar state.1 10
  have whole := prints.emits.trans ends
  refine ⟨?_, (Output.emits_flush _).within (whole.within ⟨Nat.zero_le _, List.forall_mem_nil _⟩)⟩
  rw [Output.flush_chunks, whole.text]
  rfl

namespace Volume

variable {v : Volume} {d : Disk}

theorem renderLoop_prints {fuel cluster n : Nat} {state : Output UInt8 × Nat} (parity : state.2 % 2 = n % 2) :
    (v.slotsFrom d fuel cluster = none → v.renderLoop d fuel cluster state = none) ∧
      ∀ entries, v.slotsFrom d fuel cluster = some entries →
        ∃ state', v.renderLoop d fuel cluster state = some state' ∧
          Prints n state state' (listedIn entries) := by
  induction fuel generalizing cluster n state with
  | zero => exact ⟨fun _ => rfl, fun _ never => by cases never⟩
  | succ fuel ih =>
    rw [slotsFrom, renderLoop]
    by_cases inside : cluster < endOfChain
    · rw [if_pos inside, if_pos inside]
      simp only
      obtain ⟨here, ends⟩ := renderEntries_prints
        (entriesOf (v.clusterSize / 32) (v.readCluster d cluster)) parity
      rw [ends]
      by_cases stops : (entriesOf (v.clusterSize / 32) (v.readCluster d cluster)).any (·.first == 0)
      · rw [if_pos stops, if_pos stops]
        refine ⟨fun never => (by cases never), fun entries same => ?_⟩
        cases same
        exact ⟨_, rfl, here⟩
      · rw [if_neg stops, if_neg stops]
        obtain ⟨never, prints⟩ := @ih (v.nextCluster d cluster) _ _ here.parity
        constructor
        · intro none
          exact never (Option.map_eq_none_iff.mp none)
        · intro entries some
          obtain ⟨later, found, rfl⟩ := Option.map_eq_some_iff.mp some
          obtain ⟨state', ran, printed⟩ := prints later found
          refine ⟨state', ran, ?_⟩
          rw [listed_append ((Bool.not_eq_true _).mp stops)]
          exact here.append printed
    · rw [if_neg inside, if_neg inside]
      refine ⟨fun never => (by cases never), fun entries same => ⟨state, rfl, ?_⟩⟩
      cases same
      exact .nil parity

/-! ### The walk of `ListDirectoryToBuffer` -/

theorem lineEntries_eq (entries : List DirEntry) (buf : List UInt8) :
    lineEntries entries buf = (buf ++ lines (listedIn entries), entries.any (·.first == 0)) := by
  induction entries generalizing buf with
  | nil => rw [lineEntries, lines, listedIn, List.takeWhile_nil, List.filter_nil, List.flatMap_nil,
      List.append_nil, List.any_nil]
  | cons e rest ih =>
    rw [lineEntries, List.any_cons]
    by_cases zero : e.first = 0
    · rw [if_pos zero, listed_cons_zero zero, zero, lines, List.flatMap_nil, List.append_nil]
      rfl
    have open' : (e.first == 0) = false := by simpa using zero
    rw [if_neg zero, open', Bool.false_or]
    by_cases skipped : listSkips e = true
    · rw [if_pos skipped, listed_cons_skip zero skipped, ih]
    · rw [if_neg skipped, listed_cons_shown zero skipped, ih, lines, lines, List.flatMap_cons,
        List.append_assoc, List.append_assoc, List.append_assoc]

theorem lineLoop_eq (fits : v.bufSize = v.clusterSize) (fuel cluster : Nat) (buf : List UInt8) :
    v.lineLoop d fuel cluster buf =
      (v.slotsFrom d fuel cluster).map fun entries => buf ++ lines (listedIn entries) := by
  induction fuel generalizing cluster buf with
  | zero => rfl
  | succ fuel ih =>
    rw [slotsFrom, lineLoop, fits]
    by_cases inside : cluster < endOfChain
    · rw [if_pos inside, if_pos inside]
      simp only [lineEntries_eq]
      by_cases stops : (entriesOf (v.clusterSize / 32) (v.readCluster d cluster)).any (·.first == 0)
      · rw [if_pos stops, if_pos stops, Option.map_some]
      · rw [if_neg stops, if_neg stops, ih, Option.map_map]
        congr 1
        funext later
        rw [Function.comp_apply, listed_append ((Bool.not_eq_true _).mp stops), lines, lines, lines,
          List.flatMap_append, List.append_assoc]
    · rw [if_neg inside, if_neg inside, Option.map_some, lines, listedIn, List.takeWhile_nil,
        List.filter_nil, List.flatMap_nil, List.append_nil]

/-! ### Both functions -/

/-- **`ListDirectory`** ends where the walk does, and has then printed the entries. -/
theorem listDirectoryOutput_prints (v : Volume) (d : Disk) (out : Nat → UInt8) (path : CString) :
    (v.listedAt d path = none ∧ v.listDirectoryOutput d out path = none) ∨
      (v.listedAt d path = some none ∧ v.listDirectoryOutput d out path = some none) ∨
      ∃ entries o, v.listedAt d path = some (some entries) ∧ v.listDirectoryOutput d out path = some (some o) ∧
        o.chunks.flatten = rendering entries ∧ o.Within 256 := by
  unfold listedAt listDirectoryOutput
  cases v.directoryAt d path with
  | none => exact .inl ⟨rfl, rfl⟩
  | some directory =>
    cases directory with
    | none => exact .inr (.inl ⟨rfl, rfl⟩)
    | some cluster =>
      obtain ⟨never, prints⟩ := @renderLoop_prints v d loopFuel cluster 0 (⟨out, 0, [], []⟩, 0) rfl
      simp only [Option.bind_eq_bind, Option.bind_some]
      cases slots : v.slotsFrom d loopFuel cluster with
      | none =>
        rw [never slots]
        exact .inl ⟨rfl, rfl⟩
      | some entries =>
        obtain ⟨state, ran, printed⟩ := prints entries slots
        rw [ran]
        exact .inr (.inr ⟨_, _, rfl, rfl, printed.finish⟩)

/-- **Listings are complete.** What `ListDirectory` hands on, chunk by chunk, is the rendering of the
entries to be printed, no place outside its buffer is written, and the names it prints are the lines that
`ListDirectoryToBuffer` stores for the same path. -/
theorem listing_complete (v : Volume) (d : Disk) (few : v.bpb.sectorsPerCluster ≤ 8)
    (out : Nat → UInt8) (path : CString) :
    (v.listDirectoryOutput d out path).map (·.map fun o => o.chunks.flatten) =
        (v.listedAt d path).map (·.map rendering) ∧
      (∀ o, v.listDirectoryOutput d out path = some (some o) → ∀ place ∈ o.places, place < 256) ∧
      v.listDirectoryToBuffer d path = (v.listedAt d path).map (·.map lines) := by
  refine ⟨?_, ?_, ?_⟩
  · rcases listDirectoryOutput_prints v d out path with
      ⟨slots, ran⟩ | ⟨slots, ran⟩ | ⟨entries, o, slots, ran, chunks, -⟩
    · rw [slots, ran]
      rfl
    · rw [slots, ran]
      rfl
    · rw [slots, ran, Option.map_some, Option.map_some, Option.map_some, Option.map_some, chunks]
  · intro o ran
    rcases listDirectoryOutput_prints v d out path with
      ⟨-, ran'⟩ | ⟨-, ran'⟩ | ⟨-, o', -, ran', -, within⟩
    · cases ran'.symm.trans ran
    · cases ran'.symm.trans ran
    · cases ran'.symm.trans ran
      exact within.places
  · unfold listDirectoryToBuffer listedAt
    cases v.directoryAt d path with
    | none => rfl
    | some directory =>
      cases directory with
      | none => rfl
      | some cluster =>
        simp only [Option.bind_eq_bind, Option.bind_some, lineLoop_eq (bufSize_eq few)]
        cases v.slotsFrom d loopFuel cluster with
        | none => rfl
        | some entries => rfl

/-- The root directory with the file `A` of three bytes. -/
theorem listing_letter : (sample.listDirectoryOutput withLetter (fun _ => 0) ⟨[], empty_terminated⟩).map
        (·.map fun o => o.chunks.flatten) =
      some (some (65 :: List.replicate 12 32 ++ [51, 32, 32, 10])) ∧
      sample.listDirectoryToBuffer withLetter ⟨[], empty_terminated⟩ = some (some [65, 10]) := by
  have listed : sample.listedAt withLetter ⟨[], empty_terminated⟩ =
      some (some [buildDirEntry (toShortName [65]) 0x20 3 3]) := by decide +kernel
  obtain ⟨text, -, stored⟩ := listing_complete sample withLetter (by decide) (fun _ => 0) ⟨[], empty_terminated⟩
  rw [text, stored, listed]
  decide +kernel

end Volume

end LaylaOS.Fs
