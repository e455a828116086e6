/-
**The working directory of the shell** (`do_cd` of `user/shell_program.s`).

A `cd` command takes its argument from the line, makes a path of it in `path_buf1`, asks the kernel whether
it is a directory, and copies it to `cwd_buf` if it is. A path is normalised if it is absolute and does not
end in a slash, the root directory apart. `..` cuts the path at its last slash, and of two slashes there it
leaves one.

* `workingDirectory_iff` — the working directory over a session, and the calls of `make_abs_path`.
-/

import LaylaOS.Lib.Steps
import LaylaOS.Fs.WriteRead
import LaylaOS.User.ShellPaths

namespace LaylaOS.User

open LaylaOS.Lib LaylaOS.Lib.Assembly LaylaOS.Fs

/-! ### Normalised paths -/

/-- Absolute, and without a slash at the end unless it is the root. -/
def Normalised (path : List UInt8) : Prop :=
  path.head? = some 47 ∧ (path.getLast? = some 47 → path = [47])

instance (path : List UInt8) : Decidable (Normalised path) := inferInstanceAs (Decidable (_ ∧ _))

/-- There are two slashes before the last name, and not at the beginning. -/
def Doubled (path : List UInt8) : Prop :=
  ∃ before name, before ≠ [] ∧ 47 ∉ name ∧ path = before ++ 47 :: 47 :: name

theorem normalised_stripped {path : List UInt8} (absolute : path.head? = some 47) :
    Normalised (stripped path) := by
  obtain ⟨c, path, rfl⟩ : ∃ c rest, path = c :: rest := by
    cases path with
    | nil => cases absolute
    | cons c path => exact ⟨c, path, rfl⟩
  obtain rfl : c = 47 := by simpa using absolute
  refine ⟨rfl, fun slash => ?_⟩
  rw [stripped] at slash ⊢
  by_cases empty : path.rdropWhile isSlash = []
  · rw [empty]
  · have last := List.rdropWhile_last_not isSlash path empty
    rw [List.getLast?_cons, List.getLast?_eq_some_getLast empty] at slash
    rw [Option.getD_some, Option.some_inj] at slash
    rw [slash] at last
    exact absurd rfl last

theorem above_cases {path : List UInt8} (some : path ≠ []) :
    (above path = [47] ∧ ∃ c name, path = c :: name ∧ 47 ∉ name) ∨
      ∃ before name, before ≠ [] ∧ 47 ∉ name ∧ path = before ++ 47 :: name ∧ above path = before := by
  induction path using List.reverseRecOn with
  | nil => exact absurd rfl some
  | append_singleton path c ih =>
    by_cases first : path = []
    · subst first
      exact .inl ⟨rfl, c, [], rfl, List.not_mem_nil⟩
    by_cases slash : c = 47
    · subst slash
      exact .inr ⟨path, [], first, List.not_mem_nil, rfl, above_concat_slash first⟩
    · rw [above_concat first slash]
      obtain ⟨root, d, name, rfl, none⟩ | ⟨before, name, some', none, rfl, shape⟩ := ih first
      · exact .inl ⟨root, d, name ++ [c], rfl, by simp [none, Ne.symm slash]⟩
      · exact .inr ⟨before, name ++ [c], some', by simp [none, Ne.symm slash], by simp, shape⟩

theorem above_append {before name : List UInt8} (some : before ≠ []) (none : 47 ∉ name) :
    above (before ++ 47 :: name) = before := by
  induction name using List.reverseRecOn with
  | nil => exact above_concat_slash some
  | append_singleton name c ih =>
    rw [List.mem_append, List.mem_singleton, not_or] at none
    rw [← List.cons_append, ← List.append_assoc, above_concat (by simp) (Ne.symm none.2), ih none.1]

theorem doubled_iff {before name : List UInt8} (some : before ≠ []) (none : 47 ∉ name) :
    Doubled (before ++ 47 :: name) ↔ ∃ front, front ≠ [] ∧ before = front ++ [47] := by
  constructor
  · rintro ⟨front, name', some', none', shape⟩
    rw [List.append_cons front] at shape
    have same := congrArg above shape
    rw [above_append some none, above_append (by simp) none'] at same
    exact ⟨front, some', same⟩
  · rintro ⟨front, some', rfl⟩
    exact ⟨front, name, some', none, by simp⟩

/-- **The parent of a normalised path is normalised** unless there are two slashes to cut. -/
theorem normalised_parent_iff {path : List UInt8} (normal : Normalised path) :
    Normalised (parent path) ↔ ¬ Doubled path := by
  rw [parent]
  split_ifs with small
  · refine iff_of_true normal ?_
    rintro ⟨before, name, some, -, rfl⟩
    have := List.length_pos_iff.mpr some
    simp at small
    omega
  have some : path ≠ [] := List.length_pos_iff.mp (by omega)
  obtain ⟨root, c, name, rfl, none⟩ | ⟨before, name, some', none, rfl, shape⟩ := above_cases some
  · rw [root]
    refine iff_of_true ⟨rfl, fun _ => rfl⟩ ?_
    rintro ⟨before, name', some', -, shape⟩
    obtain ⟨d, before, rfl⟩ := List.exists_cons_of_ne_nil some'
    rw [List.cons_append, List.cons.injEq] at shape
    exact none (shape.2 ▸ by simp)
  · rw [shape, doubled_iff some' none]
    have first : before.head? = Option.some 47 := by
      rw [← normal.1, List.head?_append_of_ne_nil _ some']
    constructor
    · rintro ⟨-, last⟩ ⟨front, some'', rfl⟩
      have := last (by simp)
      simp [some''] at this
    · intro single
      refine ⟨first, fun last => ?_⟩
      obtain ⟨front, rfl⟩ := List.getLast?_eq_some_iff.mp last
      by_contra long
      refine single ⟨front, ?_, rfl⟩
      rintro rfl
      exact long rfl

/-! ### Paths that are cut off -/

/-- The path does not fit into 255 bytes and is cut right behind a slash, with more than slashes
left over. -/
def CutBehindSlash (path : List UInt8) : Prop :=
  path[254]? = some 47 ∧ ∃ c ∈ path.drop 255, c ≠ 47

theorem stripped_append_slashes {path slashes : List UInt8} (some : path ≠ [])
    (all : ∀ c ∈ slashes, c = 47) : stripped (path ++ slashes) = stripped path := by
  induction slashes using List.reverseRecOn with
  | nil => rw [List.append_nil]
  | append_singleton slashes c ih =>
    obtain ⟨before, last⟩ := List.forall_mem_append.mp all
    obtain rfl : c = 47 := last c (List.mem_singleton_self c)
    rw [← List.append_assoc, stripped_concat_slash (by simp [some]), ih before]

theorem length_stripped_le (path : List UInt8) : (stripped path).length ≤ path.length := by
  cases path with
  | nil => exact le_rfl
  | cons c path => exact Nat.succ_le_succ (List.rdropWhile_prefix ..).length_le

theorem length_lt_stripped {path rest : List UInt8} (some : path ≠ []) (other : ∃ c ∈ rest, c ≠ 47) :
    path.length < (stripped (path ++ rest)).length := by
  induction rest using List.reverseRecOn with
  | nil =>
    obtain ⟨c, inside, -⟩ := other
    cases inside
  | append_singleton rest c ih =>
    rw [← List.append_assoc]
    by_cases slash : c = 47
    · subst slash
      rw [stripped_concat_slash (by simp [some])]
      apply ih
      obtain ⟨d, inside, not⟩ := other
      refine ⟨d, (List.mem_append.mp inside).resolve_right ?_, not⟩
      simpa using not
    · rw [stripped_concat (by simp [some]) slash]
      simp

/-- **A path shorter than 255 bytes is whole** unless it was cut behind a slash. -/
theorem stripped_take_iff (path : List UInt8) :
    ((stripped (path.take 255)).length < 255 → stripped (path.take 255) = stripped path) ↔
      ¬ CutBehindSlash path := by
  by_cases fits : path.length ≤ 254
  · rw [List.take_of_length_le (by omega)]
    refine iff_of_true (fun _ => rfl) ?_
    rintro ⟨slash, -⟩
    rw [List.getElem?_eq_none (by omega)] at slash
    cases slash
  obtain ⟨c, last⟩ : ∃ c, path[254]? = some c := ⟨_, List.getElem?_eq_getElem (by omega)⟩
  have some : path.take 254 ≠ [] := by
    apply List.length_pos_iff.mp
    simp
    omega
  have cut : path.take 255 = path.take 254 ++ [c] := by
    rw [List.take_add_one, last]
    rfl
  have whole : path = path.take 254 ++ [c] ++ path.drop 255 := by
    rw [← cut, List.take_append_drop]
  rw [CutBehindSlash, last, Option.some_inj, cut]
  by_cases slash : c = 47
  · subst slash
    rw [stripped_concat_slash some]
    by_cases other : ∃ c ∈ path.drop 255, c ≠ 47
    · refine iff_of_false (fun same => ?_) fun none => none ⟨rfl, other⟩
      have short := length_stripped_le (path.take 254)
      have long : (path.take 254 ++ [47]).length < _ := length_lt_stripped (by simp) other
      rw [← whole] at long
      simp only [List.length_append, List.length_take, List.length_singleton] at short long
      have equal := congrArg List.length (same (by omega))
      omega
    · refine iff_of_true (fun _ => ?_) fun cut => other cut.2
      have all : ∀ c ∈ path.drop 255, c = 47 := fun c inside =>
        not_not.mp fun not => other ⟨c, inside, not⟩
      symm
      calc stripped path = stripped (path.take 254 ++ [47] ++ path.drop 255) := congrArg stripped whole
        _ = stripped (path.take 254) := by
          rw [stripped_append_slashes (by simp) all, stripped_concat_slash some]
  · rw [stripped_concat some slash]
    refine iff_of_true (fun short => ?_) fun cut => slash cut.1
    simp at short
    omega

/-! ### `cd` -/

/-- The path that `cd` asks for, if any. -/
def destination (cwd arg : List UInt8) : Option (List UInt8) :=
  if arg = [] then some [47]
  else if arg = [46] then none
  else if arg = [46, 46] then some (parent cwd)
  else some (stripped ((joined cwd arg).take 255))

/-- The working directory behind the command. -/
def cd (isdir : List UInt8 → Bool) (cwd : List UInt8) (line : Line) : List UInt8 :=
  match destination cwd (argument (line.rest 2)) with
  | none => cwd
  | some path => if isdir path then path else cwd

/-- What the kernel answers: `is_dir` says 1 for the directories, and neither it nor a `write` stores
anything. -/
structure Answers {ω : Type} (isdir : List UInt8 → Bool) (kernel : Kernel ω) : Prop where
  quiet : ∀ regs memory world, regs.eax = 4 ∨ regs.eax = 41 → (kernel regs memory world).stores = []
  answer : ∀ regs memory world path, regs.eax = 41 → Cstr memory regs.ebx path → path.length ≤ 255 →
    (kernel regs memory world).eax = if isdir path then 1 else 0

variable {ω : Type} {kernel : Kernel ω} {s : Symbols} {m : Machine Label ω} {cwd : List UInt8}
  {isdir : List UInt8 → Bool} {Q : Machine Label ω → Prop}

/-- The shell waits for a line. -/
structure AtPrompt (s : Symbols) (cwd : List UInt8) (m : Machine Label ω) : Prop where
  label : m.label = .promptLoop
  rest : m.rest = []
  ended : m.memory (s.lineBuf + UInt32.ofNat 255) = 0
  there : Cstr m.memory s.cwdBuf cwd
  absolute : cwd.head? = some 47
  short : cwd.length ≤ 255

/-- The command begins. -/
def enterCd (s : Symbols) (m : Machine Label ω) (line : Line) : Machine Label ω :=
  Machine.goto (shell s) { m with memory := line.into s m.memory } .doCd

theorem doCdDone_runs (answers : Answers isdir kernel) (there : Cstr m.memory s.cwdBuf cwd)
    (run : ∀ regs flags world overflow, Runs (shell s) kernel (Machine.goto (shell s)
      ⟨regs, m.memory, flags, m.stack, .doCdDone, [], world, m.stores, overflow⟩ .promptLoop) Q) :
    Runs (shell s) kernel (m.goto (shell s) .doCdDone) Q := by
  refine .enter <| .movImm <| .movImm <| .movImm <| .movImm <| .int_quiet (answers.quiet _ _ _ (.inl rfl)) <|
    .movImm <| .call <| cstrlen_runs there rfl fun regs flags overflow _ _ =>
    .movImm <| .movImm <| .int_quiet (answers.quiet _ _ _ (.inl rfl)) <|
    .movImm <| .movImm <| .movImm <| .movImm <| .int_quiet (answers.quiet _ _ _ (.inl rfl)) <|
    .jmp <| run _ _ _ _

theorem doCdFail_runs (answers : Answers isdir kernel)
    (run : ∀ regs flags world overflow, Runs (shell s) kernel (Machine.goto (shell s)
      ⟨regs, m.memory, flags, m.stack, .doCdFail, [], world, m.stores, overflow⟩ .promptLoop) Q) :
    Runs (shell s) kernel (m.goto (shell s) .doCdFail) Q :=
  .enter <| .movImm <| .movImm <| .movImm <| .movImm <| .int_quiet (answers.quiet _ _ _ (.inl rfl)) <|
    .jmp <| run _ _ _ _

theorem doCdValidate_runs (answers : Answers isdir kernel) {path : List UInt8}
    (asked : Cstr m.memory s.pathBuf1 path) (short : path.length ≤ 255)
    (there : Cstr m.memory s.cwdBuf cwd)
    (run : ∀ regs memory' flags world stores' overflow,
      Wrote (Within s.cwdBuf 256) m.memory m.stores memory' stores' →
      Cstr memory' s.cwdBuf (if isdir path then path else cwd) →
      Runs (shell s) kernel (Machine.goto (shell s)
        ⟨regs, memory', flags, m.stack, .doCdValidate, [], world, stores', overflow⟩ .promptLoop) Q) :
    Runs (shell s) kernel (m.goto (shell s) .doCdValidate) Q := by
  refine .enter <| .movImm <| .movImm <| .int_quiet (answers.quiet _ _ _ (.inr rfl)) <| .cmp ?_
  have said := answers.answer ((m.regs.set 41 .eax).set s.pathBuf1 .ebx) m.memory m.world path rfl asked short
  cases directory : isdir path with
  | true =>
    rw [directory, if_pos rfl] at run said
    refine .passed ?_ <| .movImm <| .movImm <| .call <| copyCstr_runs asked (Nat.lt_succ_of_le short)
      (by decide) ?_ rfl rfl rfl ?_
    · simpa using said
    · intro k inside
      exact not_within_of_apart (.inl (by omega)) (by decide) (by omega)
    · intro regs memory' flags stores' overflow wrote closed
      exact .fall <| doCdDone_runs answers closed fun _ _ _ _ => run _ _ _ _ _ _ wrote closed
  | false =>
    rw [directory, if_neg (by decide)] at run said
    refine .taken ?_ <| doCdFail_runs answers fun _ _ _ _ => run _ _ _ _ _ _ (.refl ..) there
    have other := ne_of_eq_of_ne said (show (0 : UInt32) ≠ 1 by decide)
    simpa using other

theorem doCd_dispatch {arg : List UInt8} {regs : Regs} {memory : Memory} {flags : Flags}
    {stack : List (Slot Label)} {world : ω} {stores : List UInt32} {overflow : Bool}
    (found : Cstr memory s.argBuf arg) (some : arg ≠ [])
    (here : arg = [46] → ∀ regs flags, Runs (shell s) kernel (Machine.goto (shell s)
      ⟨regs, memory, flags, stack, .doCd, [], world, stores, overflow⟩ .doCdDone) Q)
    (up : arg = [46, 46] → ∀ regs flags, Runs (shell s) kernel
      ⟨regs, memory, flags, stack, .doCd, (block s .doCd).drop 15, world, stores, overflow⟩ Q)
    (normal : arg ≠ [46] → arg ≠ [46, 46] → ∀ regs flags, Runs (shell s) kernel (Machine.goto (shell s)
      ⟨regs, memory, flags, stack, .doCd, [], world, stores, overflow⟩ .doCdNormal) Q) :
    Runs (shell s) kernel
      ⟨regs, memory, flags, stack, .doCd, (block s .doCd).drop 4, world, stores, overflow⟩ Q := by
  obtain ⟨c, arg, rfl⟩ := List.exists_cons_of_ne_nil some
  obtain ⟨first, -, behind⟩ := found
  refine .movb <| .cmpb ?_
  by_cases dot : c = 46
  · subst dot
    refine .passed (by simp [first]) <| .movb <| .cmpb ?_
    cases arg with
    | nil => exact .taken (by simp [show memory (s.argBuf + 1) = 0 from behind]) <| here rfl _ _
    | cons d arg =>
      obtain ⟨second, some', behind⟩ := behind
      refine .passed (by simp [second, some']) <| .cmpb ?_
      by_cases dot : d = 46
      · subst dot
        have place : s.argBuf + 1 + 1 = s.argBuf + 2 := UInt32.add_assoc ..
        rw [place] at behind
        refine .passed (by simp [second]) <| .movb <| .cmpb ?_
        cases arg with
        | nil => exact .passed (by simp [show memory (s.argBuf + 2) = 0 from behind]) <| up rfl _ _
        | cons e arg =>
          exact .taken (by simp [behind.1, behind.2.1]) <| normal (by simp) (by simp) _ _
      · exact .taken (by simp [second, dot]) <| normal (by simp) (by simp [dot]) _ _
  · exact .taken (by simp [first, dot]) <| normal (by simp [dot]) (by simp [dot]) _ _

theorem length_argument_le (line : List UInt8) : (argument line).length ≤ line.length :=
  le_trans (List.rdropWhile_prefix ..).length_le (List.dropWhile_suffix ..).length_le

theorem head?_joined {arg : List UInt8} (absolute : cwd.head? = some 47) :
    (joined cwd arg).head? = some 47 := by
  rw [joined]
  split_ifs with whole
  · exact whole
  all_goals rw [List.head?_append, absolute, Option.some_or]

theorem head?_stripped (path : List UInt8) : (stripped path).head? = path.head? := by
  cases path <;> rfl

theorem head?_parent {path : List UInt8} (absolute : path.head? = some 47) : (parent path).head? = some 47 := by
  rw [parent]
  split_ifs with small
  · exact absolute
  have some : path ≠ [] := List.length_pos_iff.mp (by omega)
  obtain ⟨root, -⟩ | ⟨before, name, some', -, rfl, shape⟩ := above_cases some
  · rw [root]
    rfl
  · rw [shape, ← absolute, List.head?_append_of_ne_nil _ some']

theorem length_parent_le (path : List UInt8) : (parent path).length ≤ path.length := by
  rw [parent]
  split_ifs with small
  · exact le_rfl
  have some : path ≠ [] := List.length_pos_iff.mp (by omega)
  obtain ⟨root, -⟩ | ⟨before, name, -, -, rfl, shape⟩ := above_cases some
  · rw [root]
    exact (Nat.lt_of_not_le small).le
  · rw [shape, List.length_append]
    exact Nat.le_add_right ..

/-- What holds of the memory while a command is being carried out. -/
structure Ready (s : Symbols) (cwd : List UInt8) (memory : Memory) : Prop where
  ended : memory (s.lineBuf + UInt32.ofNat 255) = 0
  there : Cstr memory s.cwdBuf cwd
  absolute : cwd.head? = some 47
  short : cwd.length ≤ 255

theorem Ready.kept {memory memory' : Memory} {stores stores' : List UInt32} (ready : Ready s cwd memory)
    {i : Nat} (wrote : Wrote (Within (s.bss + UInt32.ofNat i) 256) memory stores memory' stores')
    (behind : 256 ≤ i) (before : i ≤ 768) : Ready s cwd memory' := by
  have short := ready.short
  refine ⟨?_, ready.there.kept wrote ?_, ready.absolute, short⟩
  · rw [wrote.kept, ready.ended]
    exact not_within_of_apart (.inl (by omega)) (by omega) (by decide)
  · intro k inside
    exact not_within_of_apart (.inr (by omega)) (by omega) (by omega)

theorem AtPrompt.ready (start : AtPrompt s cwd m) (line : Line) : Ready s cwd (line.into s m.memory) := by
  have short := start.short
  refine ⟨?_, start.there.keep fun k inside => if_neg ?_, start.absolute, short⟩
  · rw [Line.into, if_neg (mt (within_add_iff (by decide)).mp (by decide)), start.ended]
  · exact not_within_of_apart (.inr (by omega)) (by decide) (by omega)

theorem doCdValidate_atPrompt (answers : Answers isdir kernel) (ready : Ready s cwd m.memory)
    {path : List UInt8} (asked : Cstr m.memory s.pathBuf1 path) (short : path.length ≤ 255)
    (absolute : path.head? = some 47) :
    Runs (shell s) kernel (m.goto (shell s) .doCdValidate) (AtPrompt s (if isdir path then path else cwd)) := by
  refine doCdValidate_runs answers asked short ready.there ?_
  intro regs memory' flags world stores' overflow wrote closed
  refine .now ⟨rfl, rfl, ?_, closed, ?_, ?_⟩
  · refine (wrote.kept _ ?_).trans ready.ended
    exact not_within_of_apart (.inl (by decide)) (by decide) (by decide)
  · split_ifs
    · exact absolute
    · exact ready.absolute
  · split_ifs
    · exact short
    · exact ready.short

/-- **A command leaves the working directory that it should**, back at the prompt. -/
theorem doCd_runs (answers : Answers isdir kernel) (start : AtPrompt s cwd m) (line : Line) :
    Runs (shell s) kernel (enterCd s m line) (AtPrompt s (cd isdir cwd line)) := by
  have rest_le := line.rest_length_le 2
  have short := start.short
  have ready := start.ready line
  refine .enter <| .movImm <| .movImm <| .call <| extractArg_runs (line.lineAt 2 (by decide) start.ended)
    (by omega) (fun _ inside => line.rest_apart 2 (by decide) inside) rfl rfl rfl ?_ ?_
  · intro none regs flags overflow carry
    have target : destination cwd (argument (line.rest 2)) = some [47] := if_pos none
    rw [cd, target]
    have one := (Copied.nil s.pathBuf1 256 (line.into s m.memory) m.stores).concat (by decide) (by decide) 47
    have two := one.concat (by decide) (by decide) 0
    refine .taken carry <| .enter <| .storebImm <| .storebImm <| .fall <|
      doCdValidate_atPrompt answers ?_ ?_ (by decide) rfl
    · have kept := ready.kept two.toWrote (by decide) (by decide)
      simpa using kept
    · simpa using one.held.close (by decide) (by simp)
  · intro some regs memory' flags stores' overflow carry wrote found
    have ready' := ready.kept wrote (by decide) (by decide)
    refine .passed carry <| doCd_dispatch found some ?_ ?_ ?_
    · intro dot regs flags
      have target : destination cwd (argument (line.rest 2)) = none := by rw [dot]; rfl
      rw [cd, target]
      exact doCdDone_runs answers ready'.there fun _ _ _ _ =>
        .now ⟨rfl, rfl, ready'.ended, ready'.there, ready'.absolute, ready'.short⟩
    · intro dots regs flags
      have target : destination cwd (argument (line.rest 2)) = Option.some (parent cwd) := by rw [dots]; rfl
      rw [cd, target]
      refine .movImm <| .movImm <| .call <| copyCstr_runs ready'.there (Nat.lt_succ_of_le short) (by decide) ?_
        rfl rfl rfl ?_
      · intro k inside
        exact not_within_of_apart (.inr (by omega)) (by decide) (by omega)
      intro regs memory2 flags stores2 overflow wrote2 copied
      refine .movImm <| .call <| pathUpOne_runs copied short rfl rfl ?_
      intro regs memory3 flags stores3 overflow wrote3 asked
      have ready2 := ready'.kept (i := 512) wrote2 (by decide) (by decide)
      have ready3 := ready2.kept (i := 512) wrote3 (by decide) (by decide)
      exact .jmp <| doCdValidate_atPrompt answers ready3 asked (le_trans (length_parent_le cwd) short)
        (head?_parent start.absolute)
    · intro dot dots regs flags
      have target : destination cwd (argument (line.rest 2)) =
          Option.some (stripped ((joined cwd (argument (line.rest 2))).take 255)) := by
        rw [destination, if_neg some, if_neg dot, if_neg dots]
      rw [cd, target]
      have arg_le := length_argument_le (line.rest 2)
      refine .enter <| .movImm <| .movImm <| .call <| makeAbsPath_runs found ready'.there short ?_ ?_
        rfl rfl rfl ?_
      · intro k inside
        exact not_within_of_apart (.inl (by omega)) (by decide) (by omega)
      · intro k inside
        exact not_within_of_apart (.inr (by omega)) (by decide) (by omega)
      intro regs memory2 flags stores2 overflow wrote2 asked
      have ready2 := ready'.kept (i := 512) wrote2 (by decide) (by decide)
      refine .jmp <| doCdValidate_atPrompt answers ready2 asked ?_ ?_
      · exact le_trans (length_stripped_le _) (List.length_take_le ..)
      · rw [head?_stripped, List.head?_take, if_neg (by decide), head?_joined start.absolute]

/-! ### Sessions -/

/-- The memory holds a normalised path as the working directory, within the buffer. -/
def HoldsNormalised (s : Symbols) (m : Machine Label ω) : Prop :=
  ∃ path, Cstr m.memory s.cwdBuf path ∧ path.length ≤ 255 ∧ Normalised path

/-- Every command of the session comes back to the prompt, with `P` there. -/
def Session (s : Symbols) (kernel : Kernel ω) (P : Machine Label ω → Prop) :
    Machine Label ω → List Line → Prop
  | _, [] => True
  | m, line :: lines => Runs (shell s) kernel (enterCd s m line) fun m' =>
    (m'.label = .promptLoop ∧ m'.rest = []) ∧ P m' ∧ Session s kernel P m' lines

/-- The command does not leave a directory through two slashes. -/
def UpClean (isdir : List UInt8 → Bool) (cwd : List UInt8) (line : Line) : Prop :=
  argument (line.rest 2) = [46, 46] → isdir (parent cwd) = true → ¬ Doubled cwd

theorem prompt_stays (kernel : Kernel ω) {m : Machine Label ω} (label : m.label = .promptLoop)
    (rest : m.rest = []) : (shell s).step kernel m = m := by
  obtain ⟨regs, memory, flags, stack, l, r, world, stores, overflow⟩ := m
  obtain rfl : l = .promptLoop := label
  obtain rfl : r = [] := rest
  rfl

theorem AtPrompt.holdsNormalised_iff (start : AtPrompt s cwd m) : HoldsNormalised s m ↔ Normalised cwd := by
  constructor
  · rintro ⟨path, there, -, normal⟩
    rwa [there.unique start.there] at normal
  · exact fun normal => ⟨cwd, start.there, start.short, normal⟩

theorem normalised_cd_iff (normal : Normalised cwd) (line : Line) :
    Normalised (cd isdir cwd line) ↔ UpClean isdir cwd line := by
  rw [cd, UpClean]
  by_cases dots : argument (line.rest 2) = [46, 46]
  · have target : destination cwd (argument (line.rest 2)) = some (parent cwd) := by rw [dots]; rfl
    rw [target]
    cases directory : isdir (parent cwd) with
    | true => simp [directory, dots, normalised_parent_iff normal]
    | false => simp [directory, normal]
  · refine iff_of_true ?_ fun up => absurd up dots
    have moved : ∀ path, Normalised path → Normalised (if isdir path then path else cwd) := by
      intro path normal'
      split_ifs
      · exact normal'
      · exact normal
    rw [destination, if_neg dots]
    split_ifs
    · exact moved [47] (by decide)
    · exact normal
    · refine moved _ (normalised_stripped ?_)
      rw [List.head?_take, if_neg (by decide), head?_joined normal.1]

/-- **A session keeps the working directory normalised** if and only if no command of it leaves a
directory through two slashes. -/
theorem session_iff (answers : Answers isdir kernel) (start : AtPrompt s cwd m) (normal : Normalised cwd)
    (lines : List Line) :
    Session s kernel (HoldsNormalised s) m lines ↔ Always (cd isdir) (UpClean isdir) cwd lines := by
  induction lines generalizing m cwd with
  | nil => exact Iff.rfl
  | cons line lines ih =>
    have run := doCd_runs answers start line
    rw [Session, Always, ← normalised_cd_iff normal]
    constructor
    · intro session
      obtain ⟨n, prompt, -, holds, more⟩ := run.and_of_stays session
        (fun m' prompt => prompt_stays kernel prompt.label prompt.rest)
        (fun m' there => prompt_stays kernel there.1.1 there.1.2)
      have normal' := prompt.holdsNormalised_iff.mp holds
      exact ⟨normal', (ih prompt normal').mp more⟩
    · rintro ⟨normal', more⟩
      refine run.mono fun m' prompt => ?_
      exact ⟨⟨prompt.label, prompt.rest⟩, prompt.holdsNormalised_iff.mpr normal', (ih prompt normal').mpr more⟩

/-! ### Both together -/

/-- What a call of `make_abs_path` leaves behind. -/
structure AbsPathMade (cwd path : List UInt8) (m : Machine Label ω) (m' : Machine Label ω) : Prop where
  inside : Wrote (Within m.regs.edi 256) m.memory m.stores m'.memory m'.stores
  whole : ∃ result, Cstr m'.memory m.regs.edi result ∧ result.length ≤ 255 ∧
    ((result.length < 255 → result = stripped (joined cwd path)) ↔ ¬ CutBehindSlash (joined cwd path))

/-- **The working directory stays normalised exactly without two slashes to go up through**, and
`make_abs_path` stays inside of its destination, where a short result is whole exactly without a cut behind
a slash. -/
theorem workingDirectory_iff (isdir : List UInt8 → Bool) (s : Symbols) (kernel : Kernel ω)
    (answers : Answers isdir kernel) (m : Machine Label ω) (cwd : List UInt8) (start : AtPrompt s cwd m)
    (normal : Normalised cwd) (lines : List Line) :
    (Session s kernel (HoldsNormalised s) m lines ↔ Always (cd isdir) (UpClean isdir) cwd lines) ∧
    ∀ (m : Machine Label ω) (target : Label) (back : List (Instr Label)) (stk : List (Slot Label))
      (cwd path : List UInt8), m.stack = .ret target back :: stk → Cstr m.memory s.cwdBuf cwd →
      cwd.length ≤ 255 → Cstr m.memory m.regs.esi path →
      (∀ k ≤ path.length, ¬ Within m.regs.edi 256 (m.regs.esi + UInt32.ofNat k)) →
      (∀ k ≤ cwd.length, ¬ Within m.regs.edi 256 (s.cwdBuf + UInt32.ofNat k)) →
      Runs (shell s) kernel (m.goto (shell s) .makeAbsPath) fun m' =>
        (m'.label = target ∧ m'.rest = back ∧ m'.stack = stk) ∧ AbsPathMade cwd path m m' := by
  refine ⟨session_iff answers start normal lines, ?_⟩
  intro m target back stk cwd path stack there short source apart apartCwd
  refine makeAbsPath_runs source there short apart apartCwd rfl rfl stack ?_
  intro regs memory' flags stores' overflow wrote closed
  refine .now ⟨⟨rfl, rfl, rfl⟩, wrote, _, closed, ?_, stripped_take_iff _⟩
  exact le_trans (length_stripped_le _) (List.length_take_le ..)

/-! ### A disk -/

/-- A kernel that knows the directories. -/
def knowing (isdir : List UInt8 → Bool) : Kernel Unit := fun regs memory _ =>
  ⟨if isdir (readText memory 256 regs.ebx) then 1 else 0, [], ()⟩

theorem answers_knowing (isdir : List UInt8 → Bool) : Answers isdir (knowing isdir) := by
  refine ⟨fun _ _ _ _ => rfl, fun regs memory world path _ there short => ?_⟩
  rw [knowing, readText_of_cstr there (Nat.lt_succ_of_le short)]

/-- `IsDirectory` where it returns. -/
def onDisk (v : Volume) (d : Disk) (path : List UInt8) : Bool :=
  if terminated : 0 ∉ path then (v.isDirectory d ⟨path, terminated⟩).getD false else false

/-- The shell when it has just been started. -/
def started : Machine Label Unit :=
  ⟨⟨0, 0, 0, 0, 0, 0⟩, fun a => if a = 1024 then 47 else 0, .ofResult 0, [], .promptLoop, [], (), [], false⟩

theorem started_atPrompt : AtPrompt ⟨0, fun _ => 0⟩ [47] started :=
  ⟨rfl, rfl, by decide, by decide, rfl, by decide⟩

/-- A call of `make_abs_path` for `A` in the root directory. -/
def callA : Machine Label Unit :=
  ⟨⟨0, 0, 0, 0, 256, 512⟩, fun a => if a = 1024 then 47 else if a = 256 then 65 else 0, .ofResult 0,
    [.ret .promptLoop []], .promptLoop, [], (), [], false⟩

/-- `cd ABCDEFGH` and `cd ..` on a disk with that directory, and a path made absolute. -/
theorem workingDirectory_clean : Session ⟨0, fun _ => 0⟩ (knowing (onDisk sample Volume.withDirectory))
      (HoldsNormalised ⟨0, fun _ => 0⟩) started
      [.typed [99, 100, 32, 65, 66, 67, 68, 69, 70, 71, 72, 10], .typed [99, 100, 32, 46, 46, 10]] ∧
    Runs (shell ⟨0, fun _ => 0⟩) (knowing (onDisk sample Volume.withDirectory))
      (callA.goto (shell ⟨0, fun _ => 0⟩) .makeAbsPath) fun m' =>
        (m'.label = .promptLoop ∧ m'.rest = [] ∧ m'.stack = []) ∧ AbsPathMade [47] [65] callA m' := by
  obtain ⟨session, calls⟩ := workingDirectory_iff _ _ _
    (answers_knowing (onDisk sample Volume.withDirectory)) _ _ started_atPrompt (by decide)
    [.typed [99, 100, 32, 65, 66, 67, 68, 69, 70, 71, 72, 10], .typed [99, 100, 32, 46, 46, 10]]
  refine ⟨session.mpr ?_, calls callA _ _ _ [47] [65] rfl (by decide) (by decide) (by decide) (by decide)
    (by decide)⟩
  have moved : cd (onDisk sample Volume.withDirectory) [47]
      (.typed [99, 100, 32, 65, 66, 67, 68, 69, 70, 71, 72, 10]) = [47, 65, 66, 67, 68, 69, 70, 71, 72] := by
    decide +kernel
  refine ⟨fun up => absurd up (by decide +kernel), fun _ _ => ?_, trivial⟩
  rw [moved]
  exact (normalised_parent_iff (by decide)).mp (by decide)

/-- `cd ///ABCDEFGH` and `cd ..`: the working directory is `//` then. -/
theorem cd_up_leaves_slash : ¬ ∀ (v : Volume) (d : Disk) (isdir : List UInt8 → Bool), v.WellFormed d →
    (∀ path : CString, ∀ answer, v.isDirectory d path = some answer → isdir path.val = answer) →
    ∀ (s : Symbols) (kernel : Kernel Unit), Answers isdir kernel →
      ∀ (m : Machine Label Unit) (cwd : List UInt8), AtPrompt s cwd m → Normalised cwd →
        ∀ lines, Session s kernel (HoldsNormalised s) m lines := by
  intro all
  have wf : sample.WellFormed Volume.withDirectory := sample_wellFormed [2, 3] (by decide +kernel)
  have consistent : ∀ path : CString, ∀ answer, sample.isDirectory Volume.withDirectory path = some answer →
      onDisk sample Volume.withDirectory path.val = answer := by
    intro path answer returned
    rw [onDisk, dif_pos path.property, returned, Option.getD_some]
  have session := all _ _ _ wf consistent _ _ (answers_knowing _) _ _ started_atPrompt (by decide)
    [.typed [99, 100, 32, 47, 47, 47, 65, 66, 67, 68, 69, 70, 71, 72, 10], .typed [99, 100, 32, 46, 46, 10]]
  have moved : cd (onDisk sample Volume.withDirectory) [47]
      (.typed [99, 100, 32, 47, 47, 47, 65, 66, 67, 68, 69, 70, 71, 72, 10]) =
        [47, 47, 47, 65, 66, 67, 68, 69, 70, 71, 72] := by
    decide +kernel
  obtain ⟨-, clean, -⟩ := (session_iff (answers_knowing _) started_atPrompt (by decide) _).mp session
  rw [moved] at clean
  exact clean (by decide +kernel) (by decide +kernel) ⟨[47], [65, 66, 67, 68, 69, 70, 71, 72], by decide⟩

end LaylaOS.User
