/-
**Texts in the shell** (`copy_cstr`, `cstrlen` and `extract_arg` of `user/shell_program.s`).

A routine is described by a rule for its calls: what holds when it has come back, with the registers that
its callers use afterwards, and a run from there. Each loop is an induction on the bytes that are left;
those that were copied are the `Copied` ones.
-/

import Mathlib.Data.List.DropRight
import LaylaOS.Lib.Stores
import LaylaOS.User.Shell

namespace LaylaOS.User

open LaylaOS.Lib.Assembly

variable {ω : Type} {kernel : Kernel ω} {s : Symbols} {m : Machine Label ω}
  {target : Label} {back : List (Instr Label)} {stk : List (Slot Label)} {Q : Machine Label ω → Prop}
  {src dst : UInt32} {size : Nat} {memory : Memory} {stores : List UInt32} {u t text : List UInt8}

/-! ### `copy_cstr` -/

theorem copyCstrLoop_runs (esi : m.regs.esi = src + UInt32.ofNat u.length)
    (edi : m.regs.edi = dst + UInt32.ofNat u.length) (stack : m.stack = .ret target back :: stk)
    (copied : Copied dst size memory stores u m.memory m.stores) (there : Cstr memory src (u ++ t))
    (room : (u ++ t).length < size) (fits : size ≤ 2 ^ 32)
    (apart : ∀ k ≤ (u ++ t).length, ¬ Within dst size (src + UInt32.ofNat k))
    (run : ∀ regs memory' flags stores' overflow, Wrote (Within dst size) memory stores memory' stores' →
      Cstr memory' dst (u ++ t) →
      Runs (shell s) kernel ⟨regs, memory', flags, stk, target, back, m.world, stores', overflow⟩ Q) :
    Runs (shell s) kernel (m.goto (shell s) .copyCstrLoop) Q := by
  induction t generalizing m u with
  | nil =>
    rw [List.append_nil] at there room apart run
    have here := (there.kept copied.toWrote apart).ends
    rw [← esi] at here
    refine .enter <| .movb <| .storeb <| .inc <| .inc <| .cmpb <| .passed ?_ ?_
    · simp [here]
    · rw [stack]
      refine .ret <| run _ _ _ _ _ ?_ ?_
      · simpa [edi] using copied.store (within_add room) _
      · simpa [here, edi] using copied.held.close (lt_of_lt_of_le room fits) (cstr_iff.mp there).2.2
  | cons c t ih =>
    have inside : u.length < (u ++ c :: t).length := by simp
    obtain ⟨here, some⟩ := (there.kept copied.toWrote apart).at_append
    rw [← esi] at here
    refine .enter <| .movb <| .storeb <| .inc <| .inc <| .cmpb <| .taken ?_ ?_
    · simp [here, some]
    · rw [List.append_cons] at there room apart run
      refine ih (u := u ++ [c]) ?_ ?_ stack ?_ there room apart run
      · simp [esi, add_ofNat_add_one]
      · simp [edi, add_ofNat_add_one]
      · simpa [here, edi] using copied.concat (lt_trans inside (by simpa using room)) fits c

theorem copyCstr_runs (there : Cstr m.memory src text) (room : text.length < size) (fits : size ≤ 2 ^ 32)
    (apart : ∀ k ≤ text.length, ¬ Within dst size (src + UInt32.ofNat k)) (esi : m.regs.esi = src)
    (edi : m.regs.edi = dst) (stack : m.stack = .ret target back :: stk)
    (run : ∀ regs memory' flags stores' overflow, Wrote (Within dst size) m.memory m.stores memory' stores' →
      Cstr memory' dst text →
      Runs (shell s) kernel ⟨regs, memory', flags, stk, target, back, m.world, stores', overflow⟩ Q) :
    Runs (shell s) kernel (m.goto (shell s) .copyCstr) Q := by
  refine .enter <| .fall <| copyCstrLoop_runs (u := []) ?_ ?_ stack (.nil ..) there room fits apart run
  · simpa using esi
  · simpa using edi

/-! ### The end of a text -/

/-- The loop that looks for the end of a text, which stands in several places. -/
def endLoop (base index : Reg) (loop done : Label) : List (Instr Label) :=
  [.movb (.idx base index) .eax, .cmpb 0 .eax, .jcc .e done, .inc index, .jmp loop]

theorem endLoop_runs {base index : Reg} {loop done : Label}
    (code : block s loop = endLoop base index loop done) (apart : base ≠ index) (noBase : base ≠ .eax)
    (noIndex : index ≠ .eax) (there : Cstr m.memory (m.regs.get base) (u ++ t))
    (place : m.regs.get index = UInt32.ofNat u.length)
    (run : ∀ regs flags overflow, regs.get index = UInt32.ofNat (u ++ t).length →
      (∀ r, r ≠ .eax → r ≠ index → regs.get r = m.regs.get r) →
      Runs (shell s) kernel (Machine.goto (shell s)
        ⟨regs, m.memory, flags, m.stack, loop, [], m.world, m.stores, overflow⟩ done) Q) :
    Runs (shell s) kernel (m.goto (shell s) loop) Q := by
  have kept : ∀ value r, r ≠ .eax → (m.regs.set value .eax).get r = m.regs.get r :=
    fun value r other => Regs.get_set_of_ne _ _ other
  induction t generalizing m u with
  | nil =>
    rw [List.append_nil] at there run
    refine .enter ?_
    rw [show (shell s).block loop = _ from code]
    refine .movb <| .cmpb <| .taken ?_ <| run _ _ _ ?_ ?_
    · simp only [Cond.holds_e, Flags.zero_ofSubByte, Regs.get_set_same, low_withLow, Operand.address,
        place, there.ends, decide_true]
    · rw [kept _ _ noIndex, place]
    · exact fun r other _ => kept _ _ other
  | cons c t ih =>
    obtain ⟨here, some⟩ := there.at_append
    refine .enter ?_
    rw [show (shell s).block loop = _ from code]
    refine .movb <| .cmpb <| .passed ?_ <| .inc <| .jmp ?_
    · simp only [Cond.holds_e, Flags.zero_ofSubByte, Regs.get_set_same, low_withLow, Operand.address,
        place, here, some, decide_false]
    · rw [List.append_cons] at there run
      refine ih (u := u ++ [c]) ?_ ?_ ?_ ?_
      · rwa [Regs.get_set_of_ne _ _ apart, kept _ _ noBase]
      · rw [Regs.get_set_same, kept _ _ noIndex, place, ofNat_add_one, List.length_append,
          List.length_singleton]
      · intro regs flags overflow place' same
        refine run regs flags overflow place' fun r other noIndex' => ?_
        rw [same r other noIndex', Regs.get_set_of_ne _ _ noIndex', kept _ _ other]
      · exact fun value r other => Regs.get_set_of_ne _ _ other

theorem cstrlen_runs (there : Cstr m.memory m.regs.ecx text) (stack : m.stack = .ret target back :: stk)
    (run : ∀ regs flags overflow, regs.ecx = m.regs.ecx → regs.edx = UInt32.ofNat text.length →
      Runs (shell s) kernel ⟨regs, m.memory, flags, stk, target, back, m.world, m.stores, overflow⟩ Q) :
    Runs (shell s) kernel (m.goto (shell s) .cstrlen) Q := by
  refine .enter <| .push <| .xor_self <| .fall ?_
  have code : block s .cstrlenLoop = endLoop .ecx .edx .cstrlenLoop .cstrlenDone := rfl
  refine endLoop_runs (u := []) code (by decide) (by decide) (by decide) there rfl ?_
  intro regs flags overflow length same
  rw [stack]
  exact .enter <| .pop <| .ret <| run _ _ _ rfl length

/-! ### `extract_arg` -/

/-- A newline, a zero byte or a carriage return. -/
def isEnd (c : UInt8) : Bool := c == 10 || c == 0 || c == 13

/-- The memory holds the rest of a line, up to where it ends. -/
structure LineAt (memory : Memory) (a : UInt32) (line : List UInt8) : Prop where
  held : Holds memory a line
  ends : isEnd (memory (a + UInt32.ofNat line.length)) = true
  inside : ∀ c ∈ line, isEnd c = false

def isBlank (c : UInt8) : Bool := c == 32

/-- The argument in the rest of a line. -/
def argument (line : List UInt8) : List UInt8 := (line.dropWhile isBlank).rdropWhile isBlank

section Ends

variable {regs : Regs} {flags : Flags} {stack : List (Slot Label)} {label l : Label}
  {rest : List (Instr Label)} {world : ω} {overflow : Bool}

theorem ends_taken (ends : isEnd (low regs.eax) = true)
    (run : ∀ flags rest, Runs (shell s) kernel (Machine.goto (shell s)
      ⟨regs, memory, flags, stack, label, rest, world, stores, overflow⟩ l) Q) :
    Runs (shell s) kernel
      ⟨regs, memory, flags, stack, label, .cmpb 10 .eax :: .jcc .e l :: .cmpb 0 .eax :: .jcc .e l ::
        .cmpb 13 .eax :: .jcc .e l :: rest, world, stores, overflow⟩ Q := by
  refine .cmpb ?_
  by_cases newline : low regs.eax = 10
  · exact .taken (by simpa using newline) (run _ _)
  refine .passed (by simpa using newline) <| .cmpb ?_
  by_cases zero : low regs.eax = 0
  · exact .taken (by simpa using zero) (run _ _)
  refine .passed (by simpa using zero) <| .cmpb <| .taken ?_ (run _ _)
  simpa [isEnd, newline, zero] using ends

theorem ends_passed (inside : isEnd (low regs.eax) = false) (run : ∀ flags, Runs (shell s) kernel
      ⟨regs, memory, flags, stack, label, rest, world, stores, overflow⟩ Q) :
    Runs (shell s) kernel
      ⟨regs, memory, flags, stack, label, .cmpb 10 .eax :: .jcc .e l :: .cmpb 0 .eax :: .jcc .e l ::
        .cmpb 13 .eax :: .jcc .e l :: rest, world, stores, overflow⟩ Q := by
  simp only [isEnd, Bool.or_eq_false_iff, beq_eq_false_iff_ne] at inside
  obtain ⟨⟨newline, zero⟩, carriage⟩ := inside
  refine .cmpb <| .passed ?_ <| .cmpb <| .passed ?_ <| .cmpb <| .passed ?_ <| run _
  · simpa using newline
  · simpa using zero
  · simpa using carriage

end Ends

section ExtractArg

variable {line : List UInt8}

theorem extractArgSkip_runs (there : LineAt m.memory src (u ++ line))
    (esi : m.regs.esi = src + UInt32.ofNat u.length)
    (run : ∀ v regs flags overflow, u ++ line = v ++ line.dropWhile isBlank →
      regs.edi = m.regs.edi → regs.esi = src + UInt32.ofNat v.length → low regs.eax = m.memory regs.esi →
      Runs (shell s) kernel (Machine.goto (shell s)
        ⟨regs, m.memory, flags, m.stack, .extractArgSkip, [], m.world, m.stores, overflow⟩
        .extractArgStart) Q) :
    Runs (shell s) kernel (m.goto (shell s) .extractArgSkip) Q := by
  induction line generalizing m u with
  | nil =>
    have here : m.memory m.regs.esi ≠ 32 := by
      have ends := there.ends
      rw [List.append_nil, ← esi] at ends
      intro blank
      rw [blank] at ends
      cases ends
    refine .enter <| .movb <| .cmpb <| .taken ?_ <| run u _ _ _ rfl rfl esi ?_
    · simpa using here
    · simp
  | cons c line ih =>
    have here : m.memory m.regs.esi = c := by
      rw [esi]
      exact there.held _ _ (by simp)
    by_cases blank : isBlank c
    · rw [List.append_cons] at there
      refine .enter <| .movb <| .cmpb <| .passed ?_ <| .inc <| .jmp ?_
      · simpa [here, isBlank] using blank
      · refine ih (u := u ++ [c]) there ?_ ?_
        · simp [esi, add_ofNat_add_one]
        · intro v regs flags overflow shape edi esi' eax
          refine run v regs flags overflow ?_ edi esi' eax
          rw [List.append_cons, shape, List.dropWhile_cons_of_pos blank]
    · refine .enter <| .movb <| .cmpb <| .taken ?_ <| run u _ _ _ ?_ rfl esi ?_
      · simpa [here, isBlank] using blank
      · rw [List.dropWhile_cons_of_neg blank]
      · simp

theorem extractArgCopy_runs {v : List UInt8} (there : LineAt memory src (v ++ (u ++ line)))
    (short : (u ++ line).length ≤ 255)
    (apart : ∀ k ≤ (v ++ (u ++ line)).length, ¬ Within dst 256 (src + UInt32.ofNat k))
    (copied : Copied dst 256 memory stores u m.memory m.stores)
    (esi : m.regs.esi = src + UInt32.ofNat (v ++ u).length) (edi : m.regs.edi = dst)
    (ecx : m.regs.ecx = UInt32.ofNat u.length)
    (run : ∀ regs memory' flags stores' overflow, regs.edi = dst →
      regs.ecx = UInt32.ofNat (u ++ line).length → Copied dst 256 memory stores (u ++ line) memory' stores' →
      Runs (shell s) kernel (Machine.goto (shell s)
        ⟨regs, memory', flags, m.stack, .extractArgCopy, [], m.world, stores', overflow⟩
        .extractArgTrim) Q) :
    Runs (shell s) kernel (m.goto (shell s) .extractArgCopy) Q := by
  induction line generalizing m u with
  | nil =>
    rw [List.append_nil] at there run apart
    have here : isEnd (m.memory m.regs.esi) = true := by
      rw [esi, copied.kept _ (apart _ le_rfl), there.ends]
    refine .enter <| .movb <| ends_taken ?_ fun _ _ => run _ _ _ _ _ edi ecx copied
    simpa using here
  | cons c line ih =>
    have inside : (v ++ u).length ≤ (v ++ (u ++ c :: line)).length := by simp
    have here : m.memory m.regs.esi = c := by
      rw [esi, copied.kept _ (apart _ inside)]
      exact there.held _ _ (by simp)
    have within : isEnd c = false := there.inside c (by simp)
    have room : u.length < 255 := by
      simp at short
      omega
    refine .enter <| .movb <| ends_passed ?_ fun flags => .cmp <| .passed ?_ <| .storeb <| .inc <| .inc <|
      .jmp ?_
    · simpa [here] using within
    · have below : UInt32.ofNat u.length < 255 := (ofNat_lt_iff (by omega) (by decide)).mpr room
      simpa [ecx] using below
    · rw [List.append_cons u] at there short apart run
      refine ih (u := u ++ [c]) there short apart ?_ ?_ edi ?_ run
      · simpa [here, edi, ecx] using copied.concat (lt_trans room (by decide)) (by decide) c
      · simp [esi, UInt32.add_assoc]
      · simp [ecx]

theorem extractArgTrimLoop_runs {w : List UInt8}
    (copied : Copied dst 256 memory stores (u ++ w) m.memory m.stores)
    (edi : m.regs.edi = dst) (edx : m.regs.edx = UInt32.ofNat u.length) (short : u.length ≤ 255)
    (some : u.rdropWhile isBlank ≠ []) (nonzero : ∀ c ∈ u, c ≠ 0)
    (stack : m.stack = .ret target back :: stk)
    (run : ∀ regs memory' flags stores' overflow, flags.carry = false →
      Wrote (Within dst 256) memory stores memory' stores' → Cstr memory' dst (u.rdropWhile isBlank) →
      Runs (shell s) kernel ⟨regs, memory', flags, stk, target, back, m.world, stores', overflow⟩ Q) :
    Runs (shell s) kernel (m.goto (shell s) .extractArgTrimLoop) Q := by
  induction u using List.reverseRecOn generalizing m w with
  | nil => exact absurd rfl some
  | append_singleton u c ih =>
    rw [List.length_append, List.length_singleton] at edx short
    have left : m.regs.edx ≠ 0 := by
      rw [edx]
      exact mt (ofNat_inj (by omega) (by decide)).mp (Nat.succ_ne_zero _)
    have place : m.regs.edi + m.regs.edx - 1 = dst + UInt32.ofNat u.length := by
      rw [edi, edx, add_ofNat_succ_sub_one]
    have here : m.memory (dst + UInt32.ofNat u.length) = c := copied.held _ _ (by simp)
    refine .enter <| .test <| .passed ?_ <| .movb <| .cmpb ?_
    · simpa using left
    by_cases blank : isBlank c
    · refine .passed ?_ <| .dec <| .jmp ?_
      · simpa [place, here, isBlank] using blank
      · rw [List.rdropWhile_concat_pos _ _ _ blank] at some run
        rw [List.append_assoc, List.singleton_append] at copied
        refine ih copied edi ?_ (by omega) some ?_ stack run
        · show m.regs.edx - 1 = _
          rw [edx, ofNat_succ_sub_one]
        · exact fun d inside => nonzero d (List.mem_append_left _ inside)
    · rw [List.rdropWhile_concat_neg _ _ _ blank] at run
      refine .taken ?_ <| .enter ?_
      · simpa [place, here, isBlank] using blank
      · rw [stack]
        refine .storebImm <| .clc <| .ret <| run _ _ _ _ _ rfl ?_ ?_
        · have inside : Within dst 256 (dst + UInt32.ofNat (u.length + 1)) := within_add (by omega)
          simpa [edi, edx] using copied.store inside 0
        · have closed := copied.held.left.close (by simp; omega) nonzero
          simpa [edi, edx] using closed

theorem argument_eq_nil_iff : argument line = [] ↔ line.dropWhile isBlank = [] := by
  rw [argument, List.rdropWhile_eq_nil_iff]
  constructor
  · intro blank
    by_contra some
    have first := List.head_dropWhile_not isBlank some
    rw [blank _ (List.head_mem some)] at first
    cases first
  · intro empty
    rw [empty]
    exact List.forall_mem_nil _

/-- **`extract_arg` copies the argument of a line**, without the blanks around it. -/
theorem extractArg_runs (there : LineAt m.memory src line) (short : line.length ≤ 255)
    (apart : ∀ k ≤ line.length, ¬ Within dst 256 (src + UInt32.ofNat k)) (esi : m.regs.esi = src)
    (edi : m.regs.edi = dst) (stack : m.stack = .ret target back :: stk)
    (none : argument line = [] → ∀ regs flags overflow, flags.carry = true →
      Runs (shell s) kernel ⟨regs, m.memory, flags, stk, target, back, m.world, m.stores, overflow⟩ Q)
    (found : argument line ≠ [] → ∀ regs memory' flags stores' overflow, flags.carry = false →
      Wrote (Within dst 256) m.memory m.stores memory' stores' → Cstr memory' dst (argument line) →
      Runs (shell s) kernel ⟨regs, memory', flags, stk, target, back, m.world, stores', overflow⟩ Q) :
    Runs (shell s) kernel (m.goto (shell s) .extractArg) Q := by
  refine .enter <| .fall <| extractArgSkip_runs (u := []) there ?_ ?_
  · simpa using esi
  intro v regs flags overflow shape edi' esi' eax
  rw [List.nil_append] at shape
  by_cases empty : line.dropWhile isBlank = []
  · have ends : isEnd (low regs.eax) = true := by
      rw [empty, List.append_nil] at shape
      rw [eax, esi', ← shape, there.ends]
    refine .enter <| ends_taken ends fun flags rest => .enter ?_
    rw [stack]
    exact .stc <| .ret <| none (argument_eq_nil_iff.mpr empty) _ _ _ rfl
  · have some : argument line ≠ [] := mt argument_eq_nil_iff.mp empty
    rw [shape] at there short apart
    have first : ∃ c rest, line.dropWhile isBlank = c :: rest := List.exists_cons_of_ne_nil empty
    obtain ⟨c, rest, first⟩ := first
    have inside : isEnd (low regs.eax) = false := by
      rw [first] at there
      rw [eax, esi', there.held v.length c (by simp)]
      exact there.inside c (by simp)
    refine .enter <| ends_passed inside fun flags => .xor_self <| .fall ?_
    refine extractArgCopy_runs (u := []) there ?_ apart (.nil ..) ?_ (edi'.trans edi) rfl ?_
    · simp only [List.length_append] at short
      simpa using by omega
    · simpa using esi'
    intro regs memory' flags stores' overflow edi ecx copied
    rw [List.nil_append] at ecx copied
    rw [List.length_append] at short
    have left : regs.ecx ≠ 0 := by
      rw [ecx]
      refine mt (ofNat_inj (by omega) (by decide)).mp ?_
      exact List.length_pos_iff.mpr empty |>.ne'
    refine .enter <| .test <| .passed ?_ <| .mov <| .fall ?_
    · simpa using left
    refine extractArgTrimLoop_runs (w := []) ?_ edi ecx (by omega) some ?_ stack (found some)
    · simpa using copied
    · intro d inside zero
      have := there.inside d (List.mem_append_right _ inside)
      rw [zero] at this
      cases this

end ExtractArg

/-! ### Lines -/

/-- The bytes of `line_buf` that `sys_read` may store to. -/
structure Line where
  bytes : List UInt8
  length : bytes.length = 255

namespace Line

/-- What stands behind the name of the command, up to the end of the line. -/
def rest (line : Line) (name : Nat) : List UInt8 := (line.bytes.drop name).takeWhile fun c => !isEnd c

/-- The memory when the line has been read. -/
def into (line : Line) (s : Symbols) (memory : Memory) : Memory := fun a =>
  if Within s.lineBuf 255 a then line.bytes.getD (a - s.lineBuf).toNat 0 else memory a

variable (line : Line)

theorem into_inside {k : Nat} (inside : k < 255) :
    line.into s memory (s.lineBuf + UInt32.ofNat k) = line.bytes.getD k 0 := by
  rw [into, if_pos (within_add inside), add_sub_self, UInt32.toNat_ofNat_of_lt' (lt_trans inside (by decide))]

theorem rest_length_le (name : Nat) : (line.rest name).length ≤ 255 - name := by
  have shorter := (List.takeWhile_prefix (fun c => !isEnd c) (l := line.bytes.drop name)).length_le
  rwa [List.length_drop, line.length] at shorter

theorem rest_apart (name : Nat) (inside : name ≤ 255) {k : Nat} (short : k ≤ (line.rest name).length) :
    ¬ Within s.argBuf 256 (s.lineBuf + UInt32.ofNat name + UInt32.ofNat k) := by
  have rest_le := line.rest_length_le name
  have place : s.lineBuf + UInt32.ofNat name = s.bss + UInt32.ofNat name := by simp [Symbols.lineBuf]
  rw [place]
  exact not_within_of_apart (.inl (by omega)) (by decide) (by omega)

theorem lineAt (name : Nat) (inside : name ≤ 255) (ended : memory (s.lineBuf + UInt32.ofNat 255) = 0) :
    LineAt (line.into s memory) (s.lineBuf + UInt32.ofNat name) (line.rest name) := by
  have place : ∀ k, s.lineBuf + UInt32.ofNat name + UInt32.ofNat k = s.lineBuf + UInt32.ofNat (name + k) := by
    intro k
    rw [UInt32.ofNat_add, ← UInt32.add_assoc]
  have whole : line.bytes.drop name = line.rest name ++ (line.bytes.drop name).dropWhile fun c => !isEnd c :=
    List.takeWhile_append_dropWhile.symm
  have short := line.rest_length_le name
  refine ⟨fun k c inside => ?_, ?_, fun c inside => ?_⟩
  · have bound := (List.getElem?_eq_some_iff.mp inside).1
    have there : line.bytes[name + k]? = some c := by
      rw [← List.getElem?_drop, whole, List.getElem?_append_left bound, inside]
    rw [place, into_inside line (by omega), List.getD_eq_getElem?_getD, there, Option.getD_some]
  · rw [place]
    cases left : (line.bytes.drop name).dropWhile fun c => !isEnd c with
    | nil =>
      have length := congrArg List.length whole
      rw [left, List.append_nil, List.length_drop, line.length] at length
      rw [← length, Nat.add_sub_cancel' inside, into, if_neg, ended]
      · rfl
      · exact mt (within_add_iff (by decide)).mp (by decide)
    | cons c after =>
      have there : line.bytes[name + (line.rest name).length]? = some c := by
        rw [← List.getElem?_drop, whole, left, List.getElem?_append_right le_rfl, Nat.sub_self]
        rfl
      have bound := (List.getElem?_eq_some_iff.mp there).1
      rw [line.length] at bound
      rw [into_inside line bound, List.getD_eq_getElem?_getD, there, Option.getD_some]
      have first := List.head_dropWhile_not (fun c => !isEnd c) (l := line.bytes.drop name) (by simp [left])
      simpa [left] using first
  · simpa using List.mem_takeWhile_imp inside

end Line

theorem length_typed (text : List UInt8) : ((text ++ List.replicate 255 0).take 255).length = 255 := by
  rw [List.length_take, List.length_append, List.length_replicate]
  omega

/-- A line that was typed, over zero bytes. -/
def Line.typed (text : List UInt8) : Line := ⟨(text ++ List.replicate 255 0).take 255, length_typed text⟩

end LaylaOS.User
