/-
**Interrupt entry and exit** (`arch/i386/interrupts.s`, `SyscallFrame`, `Process::Process`).

The processor pushes `eflags`, `cs` and `eip` (and, from ring 3, the user stack), and for some exceptions
an error code. A stub pushes the other registers, calls `InterruptManager::HandleInterrupt` with the
stack pointer, and pops everything from the stack pointer that it returns. `SyscallFrame` and the
constructor of a process describe the same layout a second and a third time.

The stubs for exceptions with an error code remove it with `pop %eax`, before `eax` is saved.

* `context_preserved_iff` — when a program finds its registers again, and how a process starts.
-/

import LaylaOS.Lib.WordStack

namespace LaylaOS.Kernel

open LaylaOS.Lib

/-! ### The processor -/

/-- The general registers. -/
inductive Reg
  | eax
  | ecx
  | edx
  | ebx
  | esp
  | ebp
  | esi
  | edi
  deriving DecidableEq, Repr

/-- The segment registers besides `cs`. -/
inductive Seg
  | ds
  | es
  | fs
  | gs
  | ss
  deriving DecidableEq, Repr

/-- The registers and the memory. All accesses here are to words of one stack, a multiple of four bytes
apart, so memory is a word at each address. -/
@[ext]
structure Cpu where
  regs : Reg → BitVec 32
  segs : Seg → BitVec 16
  cs : BitVec 16
  eip : BitVec 32
  eflags : BitVec 32
  memory : BitVec 32 → BitVec 32

/-- The privilege level in a selector, its low two bits. -/
def ring (selector : BitVec 16) : Nat := selector.toNat % 4

/-- What a C++ function leaves when it returns: its result, the registers that it need not keep, and
the memory. -/
structure Returned where
  result : BitVec 32
  ecx : BitVec 32
  edx : BitVec 32
  memory : BitVec 32 → BitVec 32

/-- `InterruptManager::HandleInterrupt`, called with its arguments on the stack. -/
abbrev Handler := Cpu → Returned

/-- The instructions of the stubs, source operand first. The flags that `xor` and `add` change are
loaded again by `iret`. -/
inductive Instr
  | push (r : Reg)
  | pop (r : Reg)
  | pushSeg (s : Seg)
  | popSeg (s : Seg)
  | pusha
  | popa
  | mov (src dst : Reg)
  | xor (src dst : Reg)
  | movb (value : BitVec 8)
  | call
  | addEsp (bytes : BitVec 32)
  | iret
  deriving DecidableEq, Repr

namespace Cpu

def setReg (c : Cpu) (r : Reg) (value : BitVec 32) : Cpu :=
  { c with regs := Function.update c.regs r value }

def setSeg (c : Cpu) (s : Seg) (value : BitVec 16) : Cpu :=
  { c with segs := Function.update c.segs s value }

def pushWord (c : Cpu) (word : BitVec 32) : Cpu :=
  { c.setReg .esp (c.regs .esp - 4) with memory := Function.update c.memory (c.regs .esp - 4) word }

/-- The word on top of the stack. -/
def top (c : Cpu) : BitVec 32 := c.memory (c.regs .esp)

/-- Take the word on top of the stack away. -/
def release (c : Cpu) : Cpu := c.setReg .esp (c.regs .esp + 4)

def popReg (c : Cpu) (r : Reg) : Cpu := (c.setReg r c.top).release

/-- The order of `pusha`. -/
def pushaOrder : List Reg := [.eax, .ecx, .edx, .ebx, .esp, .ebp, .esi, .edi]

/-- `pusha` pushes the `esp` from before. -/
def pusha (c : Cpu) : Cpu := pushaOrder.foldl (fun c' r => c'.pushWord (c.regs r)) c

/-- `popa` takes the words in the other order and skips that of `esp`. -/
def popa (c : Cpu) : Cpu :=
  pushaOrder.reverse.foldl (fun c r => if r = .esp then c.release else c.popReg r) c

/-- `iret`; it loads a stack pointer as well if it leaves ring 0. (It would also clear segment
registers that the outer ring may not use; a program there has none.) -/
def iret (c : Cpu) : Cpu :=
  let c := { c with eip := c.top }.release
  let c := { c with cs := c.top.truncate 16 }.release
  let c := { c with eflags := c.top }.release
  if ring c.cs = 0 then c
  else
    let esp := c.top
    let c := c.release
    (c.setSeg .ss (c.top.truncate 16)).setReg .esp esp

/-- One instruction. -/
def exec (handler : Handler) (c : Cpu) : Instr → Cpu
  | .push r => c.pushWord (c.regs r)
  | .pop r => c.popReg r
  | .pushSeg s => c.pushWord ((c.segs s).setWidth 32)
  | .popSeg s => (c.setSeg s (c.top.truncate 16)).release
  | .pusha => c.pusha
  | .popa => c.popa
  | .mov src dst => c.setReg dst (c.regs src)
  | .xor src dst => c.setReg dst (c.regs dst ^^^ c.regs src)
  | .movb value => c.setReg .eax ((c.regs .eax &&& 0xFFFFFF00) ||| value.setWidth 32)
  | .call =>
    let returned := handler c
    { ((c.setReg .eax returned.result).setReg .ecx returned.ecx).setReg .edx returned.edx with
      memory := returned.memory }
  | .addEsp bytes => c.setReg .esp (c.regs .esp + bytes)
  | .iret => c.iret

def run (handler : Handler) (c : Cpu) (code : List Instr) : Cpu := code.foldl (exec handler) c

theorem run_cons (handler : Handler) (c : Cpu) (i : Instr) (code : List Instr) :
    c.run handler (i :: code) = (c.exec handler i).run handler code := rfl

theorem run_append (handler : Handler) (c : Cpu) (first second : List Instr) :
    c.run handler (first ++ second) = (c.run handler first).run handler second := List.foldl_append

/-- The stack of ring 0 in the TSS. -/
structure Tss where
  ss0 : BitVec 16
  esp0 : BitVec 32

/-- From an outer ring the processor changes to the stack in the TSS and saves the old one there. -/
def switchStack (c : Cpu) (tss : Tss) : Cpu :=
  if ring c.cs = 0 then c
  else (((c.setSeg .ss tss.ss0).setReg .esp tss.esp0).pushWord ((c.segs .ss).setWidth 32)).pushWord
    (c.regs .esp)

/-- What the processor does in front of the stub at `gate`. A trap gate leaves interrupts enabled. -/
def enter (c : Cpu) (tss : Tss) (gate : BitVec 32) (trap : Bool) (error : Option (BitVec 32)) : Cpu :=
  let saved := (((c.switchStack tss).pushWord c.eflags).pushWord (c.cs.setWidth 32)).pushWord c.eip
  let saved :=
    match error with
    | none => saved
    | some code => saved.pushWord code
  { saved with
    cs := 0x08
    eip := gate
    eflags := if trap then c.eflags else c.eflags &&& ~~~0x200 }

end Cpu

/-! ### The stubs -/

/-- `ISR_NOERRCODE`. -/
def isrNoerrcode (num : BitVec 8) : List Instr :=
  [.pusha, .pushSeg .ds, .pushSeg .es, .pushSeg .fs, .pushSeg .gs, .pushSeg .ss, .mov .esp .eax,
    .push .eax, .xor .eax .eax, .movb num, .push .eax, .call, .addEsp 8, .mov .eax .esp, .popSeg .ss,
    .popSeg .gs, .popSeg .fs, .popSeg .es, .popSeg .ds, .popa, .iret]

/-- `ISR_ERRCODE`. -/
def isrErrcode (num : BitVec 8) : List Instr :=
  [.pop .eax, .pusha, .pushSeg .ds, .pushSeg .es, .pushSeg .fs, .pushSeg .gs, .pushSeg .ss,
    .mov .esp .eax, .push .eax, .xor .eax .eax, .movb num, .push .eax, .call, .addEsp 8, .mov .eax .esp,
    .popSeg .ss, .popSeg .gs, .popSeg .fs, .popSeg .es, .popSeg .ds, .popa, .iret]

/-- `isr_128`. -/
def isr128 : List Instr :=
  [.pusha, .pushSeg .ds, .pushSeg .es, .pushSeg .fs, .pushSeg .gs, .pushSeg .ss, .mov .esp .eax,
    .push .eax, .xor .eax .eax, .movb 0x80, .push .eax, .call, .addEsp 8, .mov .eax .esp, .popSeg .ss,
    .popSeg .gs, .popSeg .fs, .popSeg .es, .popSeg .ds, .popa, .iret]

/-- The vectors with a stub of their own. -/
inductive Vector
  | errcode (num : BitVec 8) (pushes : num ∈ [8, 10, 11, 12, 13, 14])
  | hardware (line : Fin 16)
  | syscall

def Vector.stub : Vector → List Instr
  | .errcode num _ => isrErrcode num
  | .hardware line => isrNoerrcode (32 + BitVec.ofNat 8 line)
  | .syscall => isr128

/-- The error code that the processor pushes for the vector. -/
def Vector.error (vector : Vector) (code : BitVec 32) : Option (BitVec 32) :=
  match vector with
  | .errcode _ _ => some code
  | _ => none

/-- The gate of the system call is a trap gate. -/
def Vector.trap : Vector → Bool
  | .syscall => true
  | _ => false

/-! ### Frames -/

/-- What the epilogue of a stub loads. -/
structure Saved where
  regs : Reg → BitVec 32
  segs : Seg → BitVec 16
  eip : BitVec 32
  cs : BitVec 16
  eflags : BitVec 32
  userEsp : BitVec 32
  userSs : BitVec 16

/-- The part of a frame that the processor pushes. -/
def Saved.pushed (f : Saved) : List (BitVec 32) :=
  f.eip :: f.cs.setWidth 32 :: f.eflags ::
    if ring f.cs = 0 then [] else [f.userEsp, f.userSs.setWidth 32]

/-- The words of the segment registers, the last one pushed first. -/
def segWords (segs : Seg → BitVec 16) : List (BitVec 32) :=
  [(segs .ss).setWidth 32, (segs .gs).setWidth 32, (segs .fs).setWidth 32, (segs .es).setWidth 32,
    (segs .ds).setWidth 32]

/-- The words of the general registers, the last one pushed first. -/
def regWords (regs : Reg → BitVec 32) : List (BitVec 32) :=
  [regs .edi, regs .esi, regs .ebp, regs .esp, regs .ebx, regs .edx, regs .ecx, regs .eax]

/-- The words of a frame, in the order of `SyscallFrame`. -/
def Saved.words (f : Saved) : List (BitVec 32) := segWords f.segs ++ (regWords f.regs ++ f.pushed)

/-- The processor with the loaded registers. -/
def Saved.loaded (f : Saved) (memory : BitVec 32 → BitVec 32) (frame : BitVec 32) : Cpu where
  regs r := if r = .esp then (if ring f.cs = 0 then frame + 64 else f.userEsp) else f.regs r
  segs s := if s = .ss ∧ ring f.cs ≠ 0 then f.userSs else f.segs s
  cs := f.cs
  eip := f.eip
  eflags := f.eflags
  memory := memory

namespace Cpu

variable {c : Cpu} {words : List (BitVec 32)}

theorem pushWord_esp (c : Cpu) (word : BitVec 32) :
    (c.pushWord word).regs .esp = c.regs .esp - BitVec.ofNat 32 4 := by
  simp [pushWord, setReg]

theorem release_esp (c : Cpu) : c.release.regs .esp = c.regs .esp + BitVec.ofNat 32 4 := by
  simp [release, setReg]

/-- The words on top of the stack. -/
def Holds (c : Cpu) (words : List (BitVec 32)) : Prop := Spelled 4 c.memory (c.regs .esp) words

theorem Holds.pushWord (holds : c.Holds words) (few : words.length < 2 ^ 20) (word : BitVec 32) :
    (c.pushWord word).Holds (word :: words) := by
  unfold Holds
  rw [pushWord_esp]
  exact Spelled.push holds (by decide) (by omega) word

theorem Holds.release {word : BitVec 32} (holds : c.Holds (word :: words)) : c.release.Holds words := by
  unfold Holds
  rw [release_esp]
  exact holds.2

theorem Holds.pushWords (holds : c.Holds words) (pushed : List (BitVec 32))
    (few : pushed.length + words.length < 2 ^ 20) :
    (pushed.foldl Cpu.pushWord c).Holds (pushed.reverse ++ words) := by
  induction pushed generalizing c words with
  | nil => exact holds
  | cons word pushed ih =>
    rw [List.length_cons] at few
    have more := ih (holds.pushWord (by omega) word) (by rw [List.length_cons]; omega)
    rw [List.reverse_cons, List.append_assoc]
    exact more

/-! ### The epilogue -/

theorem popSegs_spec {segs : Seg → BitVec 16} (holds : c.Holds (segWords segs ++ words)) (handler : Handler) :
    c.run handler [.popSeg .ss, .popSeg .gs, .popSeg .fs, .popSeg .es, .popSeg .ds] =
      { c.setReg .esp (c.regs .esp + 20) with segs := segs } ∧
      ({ c.setReg .esp (c.regs .esp + 20) with segs := segs } : Cpu).Holds words := by
  obtain ⟨ss, gs, fs, es, ds, rest⟩ := holds
  have sum : c.regs .esp + BitVec.ofNat 32 4 + BitVec.ofNat 32 4 + BitVec.ofNat 32 4 + BitVec.ofNat 32 4 +
      BitVec.ofNat 32 4 = c.regs .esp + 20 := by
    simp only [BitVec.add_assoc]
    rfl
  rw [sum] at rest
  refine ⟨?_, by simpa [Holds, setReg] using rest⟩
  simp only [run, List.foldl_cons, List.foldl_nil, exec, release, setReg, setSeg, top,
    Function.update_self, Function.update_idem, BitVec.ofNat_eq_ofNat, ss, gs, fs, es, ds, sum,
    BitVec.truncate_eq_setWidth]
  congr 1
  funext s
  cases s <;> simp

theorem popa_spec {regs : Reg → BitVec 32} (holds : c.Holds (regWords regs ++ words)) :
    c.popa = { c with regs := Function.update regs .esp (c.regs .esp + 32) } ∧
      ({ c with regs := Function.update regs .esp (c.regs .esp + 32) } : Cpu).Holds words := by
  obtain ⟨edi, esi, ebp, -, ebx, edx, ecx, eax, rest⟩ := holds
  have sum : c.regs .esp + BitVec.ofNat 32 4 + BitVec.ofNat 32 4 + BitVec.ofNat 32 4 + BitVec.ofNat 32 4 +
      BitVec.ofNat 32 4 + BitVec.ofNat 32 4 + BitVec.ofNat 32 4 + BitVec.ofNat 32 4 =
      c.regs .esp + 32 := by
    simp only [BitVec.add_assoc]
    rfl
  rw [sum] at rest
  refine ⟨?_, by simpa [Holds, setReg] using rest⟩
  simp only [popa, pushaOrder, List.reverse_cons, List.reverse_nil, List.nil_append, List.cons_append,
    List.foldl_cons, List.foldl_nil, popReg, release, setReg, top, reduceCtorEq, if_true, if_false,
    Function.update_self, ne_eq, not_false_eq_true, Function.update_of_ne, BitVec.ofNat_eq_ofNat, edi,
    esi, ebp, ebx, edx, ecx, eax, sum]
  congr 1
  funext r
  cases r <;> simp

theorem iret_spec {f : Saved} (holds : c.Holds f.pushed) : c.iret = { c with
      regs := Function.update c.regs .esp (if ring f.cs = 0 then c.regs .esp + 12 else f.userEsp)
      segs := if ring f.cs = 0 then c.segs else Function.update c.segs .ss f.userSs
      cs := f.cs
      eip := f.eip
      eflags := f.eflags } := by
  obtain ⟨eip, cs, eflags, rest⟩ := holds
  have sum : c.regs .esp + BitVec.ofNat 32 4 + BitVec.ofNat 32 4 + BitVec.ofNat 32 4 =
      c.regs .esp + BitVec.ofNat 32 12 := by
    simp only [BitVec.add_assoc]
    rfl
  simp only [iret, release, setReg, setSeg, top, Function.update_self, Function.update_idem,
    BitVec.ofNat_eq_ofNat, eip, cs, eflags, sum, BitVec.truncate_eq_setWidth,
    BitVec.setWidth_setWidth_of_le _ (show 16 ≤ 32 by decide), BitVec.setWidth_eq]
  by_cases inner : ring f.cs = 0
  · simp only [inner, if_true]
  · rw [if_neg inner] at rest
    obtain ⟨esp, ss, -⟩ := rest
    rw [sum] at esp ss
    simp only [inner, if_false, esp, ss, BitVec.setWidth_setWidth_of_le _ (show 16 ≤ 32 by decide),
      BitVec.setWidth_eq]

end Cpu

/-- The instructions of a stub behind the call. -/
def epilogue : List Instr :=
  [.addEsp 8, .mov .eax .esp, .popSeg .ss, .popSeg .gs, .popSeg .fs, .popSeg .es, .popSeg .ds, .popa,
    .iret]

/-- **The epilogue loads the frame** at the address that the handler returned. -/
theorem epilogue_spec (handler : Handler) (c : Cpu) (f : Saved)
    (spelled : Spelled 4 c.memory (c.regs .eax) f.words) :
    c.run handler epilogue = f.loaded c.memory (c.regs .eax) := by
  -- the stack pointer is the result of the call
  have start : c.run handler [.addEsp 8, .mov .eax .esp] = c.setReg .esp (c.regs .eax) := by
    simp [Cpu.run, Cpu.exec, Cpu.setReg]
  have split : c.run handler epilogue = (((c.run handler [.addEsp 8, .mov .eax .esp]).run handler
      [.popSeg .ss, .popSeg .gs, .popSeg .fs, .popSeg .es, .popSeg .ds]).popa).iret := rfl
  have holds : (c.setReg .esp (c.regs .eax)).Holds f.words := by
    simpa [Cpu.Holds, Cpu.setReg] using spelled
  obtain ⟨segs, holds⟩ := Cpu.popSegs_spec holds handler
  obtain ⟨regs, holds⟩ := Cpu.popa_spec holds
  rw [split, start, segs, regs, Cpu.iret_spec holds]
  refine Cpu.ext (funext fun r => ?_) (funext fun s => ?_) rfl rfl rfl rfl
  · by_cases esp : r = .esp
    · by_cases inner : ring f.cs = 0
      · simp [Saved.loaded, Cpu.setReg, esp, inner, BitVec.add_assoc]
      · simp [Saved.loaded, Cpu.setReg, esp, inner]
    · simp [Saved.loaded, esp]
  · by_cases inner : ring f.cs = 0
    · simp [Saved.loaded, inner]
    · by_cases ss : s = .ss
      · simp [Saved.loaded, inner, ss]
      · simp [Saved.loaded, inner, ss]

/-! ### The prologue -/

/-- What a stub pushes, in order. -/
def Cpu.stubPushes (c : Cpu) : List (BitVec 32) :=
  Cpu.pushaOrder.map c.regs ++ [Seg.ds, .es, .fs, .gs, .ss].map fun s => (c.segs s).setWidth 32

/-- The instructions of a stub in front of the call. -/
def prologue (num : BitVec 8) : List Instr :=
  [.pusha, .pushSeg .ds, .pushSeg .es, .pushSeg .fs, .pushSeg .gs, .pushSeg .ss, .mov .esp .eax,
    .push .eax, .xor .eax .eax, .movb num, .push .eax]

namespace Cpu

variable {c : Cpu} {words : List (BitVec 32)}

theorem pushWords_esp (c : Cpu) (pushed : List (BitVec 32)) : (pushed.foldl pushWord c).regs .esp =
    c.regs .esp - BitVec.ofNat 32 (pushed.length * 4) := by
  induction pushed generalizing c with
  | nil => simp
  | cons word pushed ih =>
    rw [List.foldl_cons, ih, pushWord_esp, List.length_cons, Nat.succ_mul, BitVec.ofNat_add]
    generalize BitVec.ofNat 32 (pushed.length * 4) = bytes
    bv_omega

@[simp] theorem pushWord_segs (c : Cpu) (word : BitVec 32) : (c.pushWord word).segs = c.segs := rfl

theorem pushWords_segs (c : Cpu) (pushed : List (BitVec 32)) : (pushed.foldl pushWord c).segs = c.segs := by
  induction pushed generalizing c with
  | nil => rfl
  | cons word pushed ih => rw [List.foldl_cons, ih, pushWord_segs]

@[simp] theorem pusha_segs (c : Cpu) : c.pusha.segs = c.segs := by
  rw [pusha, ← List.foldl_map, pushWords_segs]

theorem setReg_esp (c : Cpu) {r : Reg} (other : r ≠ .esp) (value : BitVec 32) :
    (c.setReg r value).regs .esp = c.regs .esp := Function.update_of_ne other.symm ..

theorem Holds.setReg (holds : c.Holds words) {r : Reg} (other : r ≠ .esp) (value : BitVec 32) :
    (c.setReg r value).Holds words := by
  unfold Holds
  rw [setReg_esp c other]
  exact holds

theorem prologue_eq (handler : Handler) (c : Cpu) (num : BitVec 8) :
    let saved := c.stubPushes.foldl pushWord c
    c.run handler (prologue num) =
      (((saved.setReg .eax (saved.regs .esp)).pushWord (saved.regs .esp)).setReg .eax
        (num.setWidth 32)).pushWord (num.setWidth 32) := by
  intro saved
  have pushes : saved = ((((c.pusha.pushWord ((c.segs .ds).setWidth 32)).pushWord
      ((c.segs .es).setWidth 32)).pushWord ((c.segs .fs).setWidth 32)).pushWord
      ((c.segs .gs).setWidth 32)).pushWord ((c.segs .ss).setWidth 32) := by
    simp only [saved, stubPushes, pusha, List.foldl_append, List.foldl_map, List.foldl_cons, List.foldl_nil]
  have split : c.run handler (prologue num) = saved.run handler
      [.mov .esp .eax, .push .eax, .xor .eax .eax, .movb num, .push .eax] := by
    rw [pushes]
    simp only [run, prologue, List.foldl_cons, List.foldl_nil, exec, pushWord_segs, pusha_segs]
  rw [split]
  clear_value saved
  simp [run, exec, setReg, pushWord]

/-- **At the call** the arguments and the frame are on top of the stack. -/
theorem prologue_holds (holds : c.Holds words) (few : words.length ≤ 5) (handler : Handler) (num : BitVec 8) :
    let called := c.run handler (prologue num)
    let frame := c.regs .esp - 52
    called.Holds (num.setWidth 32 :: frame :: (segWords c.segs ++ (regWords c.regs ++ words))) ∧
      called.regs .esp = frame - 8 := by
  intro called frame
  have esp : (c.stubPushes.foldl Cpu.pushWord c).regs .esp = frame := pushWords_esp c c.stubPushes
  have pushed := holds.pushWords c.stubPushes (by simp [stubPushes, pushaOrder]; omega)
  have order : c.stubPushes.reverse = segWords c.segs ++ regWords c.regs := rfl
  rw [order, List.append_assoc] at pushed
  have size : (segWords c.segs ++ (regWords c.regs ++ words)).length = 13 + words.length := by
    simp [segWords, regWords]
    omega
  rw [show called = _ from prologue_eq handler c num, esp]
  constructor
  · refine Holds.pushWord (Holds.setReg ?_ (by decide) _) ?_ _
    · exact Holds.pushWord (pushed.setReg (by decide) _) (by omega) _
    · rw [List.length_cons]
      omega
  · rw [pushWord_esp, setReg_esp _ (by decide), pushWord_esp, setReg_esp _ (by decide), esp]
    bv_omega

end Cpu

/-! ### A stub around a handler -/

/-- The frame that `HandleInterrupt` is given, its second argument. -/
def Cpu.frameArgument (c : Cpu) : BitVec 32 := c.memory (c.regs .esp + BitVec.ofNat 32 4)

/-- The index of the field `eax` in a `SyscallFrame`. -/
def eaxField : Nat := 12

/-- The handler returns the stack pointer that it was given and leaves the `count` words of the frame,
apart from the field `eax` if it may set a result. -/
structure Handler.Returns (handler : Handler) (called : Cpu) (count : Nat) (setsResult : Bool) :
    Prop where
  result : (handler called).result = called.frameArgument
  frame : ∀ k < count, (k = eaxField → setsResult = false) →
    (handler called).memory (wordAddress 4 called.frameArgument k) =
      called.memory (wordAddress 4 called.frameArgument k)

theorem Saved.words_length (f : Saved) : f.words.length = if ring f.cs = 0 then 16 else 18 := by
  unfold Saved.words Saved.pushed
  split <;> rfl

theorem Saved.words_set (f : Saved) (value : BitVec 32) : f.words.set eaxField value =
    ({ f with regs := Function.update f.regs .eax value } : Saved).words := by
  simp [Saved.words, segWords, regWords, eaxField, Saved.pushed]

/-- **A stub resumes what its frame says**, with the field `eax` as the handler left it. -/
theorem isrNoerrcode_spec (handler : Handler) (num : BitVec 8) {c : Cpu} {f : Saved}
    (holds : c.Holds f.pushed) (regs : f.regs = c.regs) (segs : f.segs = c.segs) {setsResult : Bool}
    (returns : handler.Returns (c.run handler (prologue num)) (if ring f.cs = 0 then 16 else 18) setsResult) :
    let returned := handler (c.run handler (prologue num))
    let frame := c.regs .esp - 52
    let eax := returned.memory (wordAddress 4 frame eaxField)
    c.run handler (isrNoerrcode num) =
        ({ f with regs := Function.update f.regs .eax eax } : Saved).loaded returned.memory frame ∧
      (setsResult = false → eax = c.regs .eax) := by
  intro returned frame eax
  have few : f.pushed.length ≤ 5 := by
    unfold Saved.pushed
    split <;> simp
  obtain ⟨⟨-, argument, spelled⟩, esp⟩ := Cpu.prologue_holds holds few handler num
  have words : f.words = segWords c.segs ++ (regWords c.regs ++ f.pushed) := by
    rw [Saved.words, regs, segs]
  have start : (c.run handler (prologue num)).regs .esp + BitVec.ofNat 32 4 + BitVec.ofNat 32 4 = frame := by
    rw [esp]
    show _ = c.regs .esp - 52
    bv_omega
  rw [start] at spelled
  change Spelled 4 _ frame (segWords c.segs ++ (regWords c.regs ++ f.pushed)) at spelled
  rw [← words] at spelled
  obtain ⟨result, kept⟩ := returns
  rw [show Cpu.frameArgument _ = frame from argument] at result kept
  have after : Spelled 4 returned.memory frame (f.words.set eaxField eax) :=
    spelled.replace fun k bound other =>
      kept k (by rw [← f.words_length]; exact bound) fun same => absurd same other
  rw [f.words_set] at after
  refine ⟨?_, fun keeps => ?_⟩
  · have loads : ((c.run handler (prologue num)).exec handler .call).regs .eax = frame := by
      simpa [Cpu.exec, Cpu.setReg] using result
    have resumed := epilogue_spec handler ((c.run handler (prologue num)).exec handler .call)
      { f with regs := Function.update f.regs .eax eax } (by rw [loads]; exact after)
    rw [loads] at resumed
    refine Eq.trans ?_ resumed
    rw [show isrNoerrcode num = prologue num ++ .call :: epilogue from rfl, Cpu.run_append, Cpu.run_cons]
  · have same := kept eaxField (by split <;> decide) fun _ => keeps
    refine same.trans ?_
    have word := Spelled.iff_getElem?.mp spelled eaxField (c.regs .eax) (by rw [words]; rfl)
    exact word

/-! ### Interrupted programs -/

/-- The frame of the program that is interrupted, once the processor is at the stub. -/
def Cpu.interrupted (c entered : Cpu) : Saved where
  regs := entered.regs
  segs := entered.segs
  eip := c.eip
  cs := c.cs
  eflags := c.eflags
  userEsp := c.regs .esp
  userSs := c.segs .ss

/-- The processor is at the instructions that all stubs share, with the program's registers except that
`eax` is in that register. -/
structure Cpu.Entered (c entered : Cpu) (eax : BitVec 32) : Prop where
  holds : entered.Holds (c.interrupted entered).pushed
  regs : ∀ r ≠ Reg.esp, entered.regs r = Function.update c.regs .eax eax r
  esp : ring c.cs = 0 → entered.regs .esp = c.regs .esp - 12
  segs : ∀ s, (s = Seg.ss → ring c.cs = 0) → entered.segs s = c.segs s

namespace Cpu

theorem pushWord_regs (c : Cpu) (word : BitVec 32) {r : Reg} (other : r ≠ .esp) :
    (c.pushWord word).regs r = c.regs r := Function.update_of_ne other ..

theorem switchStack_holds (c : Cpu) (tss : Tss) : (c.switchStack tss).Holds
    (if ring c.cs = 0 then [] else [c.regs .esp, (c.segs .ss).setWidth 32]) := by
  have empty : ∀ c' : Cpu, c'.Holds [] := fun _ => trivial
  unfold switchStack
  split
  · exact empty c
  · exact ((empty _).pushWords [(c.segs .ss).setWidth 32, c.regs .esp] (by simp))

theorem switchStack_regs (c : Cpu) (tss : Tss) {r : Reg} (other : r ≠ .esp) :
    (c.switchStack tss).regs r = c.regs r := by
  unfold switchStack
  split
  · rfl
  · rw [pushWord_regs _ _ other, pushWord_regs _ _ other]
    exact Function.update_of_ne other ..

theorem switchStack_segs (c : Cpu) (tss : Tss) {s : Seg} (outer : s = .ss → ring c.cs = 0) :
    (c.switchStack tss).segs s = c.segs s := by
  unfold switchStack
  split
  · rfl
  · rename_i inner
    exact Function.update_of_ne (fun same => inner (outer same)) ..

/-- The words that the processor pushes on the stack that it has chosen. -/
def hardwarePushes (c : Cpu) (error : Option (BitVec 32)) : List (BitVec 32) :=
  [c.eflags, c.cs.setWidth 32, c.eip] ++ error.toList

theorem enter_eq (c : Cpu) (tss : Tss) (gate : BitVec 32) (trap : Bool) (error : Option (BitVec 32)) :
    c.enter tss gate trap error = { (c.hardwarePushes error).foldl pushWord (c.switchStack tss) with
        cs := 0x08
        eip := gate
        eflags := if trap then c.eflags else c.eflags &&& ~~~0x200 } := by
  cases error with
  | none => rfl
  | some code => rfl

theorem pushWords_regs (c : Cpu) (pushed : List (BitVec 32)) {r : Reg} (other : r ≠ .esp) :
    (pushed.foldl pushWord c).regs r = c.regs r := by
  induction pushed generalizing c with
  | nil => rfl
  | cons word pushed ih => rw [List.foldl_cons, ih, pushWord_regs c word other]

theorem enter_holds (c : Cpu) (tss : Tss) (gate : BitVec 32) (trap : Bool)
    (error : Option (BitVec 32)) (entered : Cpu) : (c.enter tss gate trap error).Holds
      (error.toList ++ (c.interrupted entered).pushed) := by
  have few : (c.hardwarePushes error).length + (if ring c.cs = 0 then []
      else [c.regs .esp, (c.segs .ss).setWidth 32] : List (BitVec 32)).length < 2 ^ 20 := by
    cases error <;> split <;> simp [hardwarePushes]
  have pushed := (c.switchStack_holds tss).pushWords (c.hardwarePushes error) few
  rw [enter_eq]
  cases error with
  | none => exact pushed
  | some code => exact pushed

theorem enter_regs (c : Cpu) (tss : Tss) (gate : BitVec 32) (trap : Bool)
    (error : Option (BitVec 32)) {r : Reg} (other : r ≠ .esp) :
    (c.enter tss gate trap error).regs r = c.regs r := by
  rw [enter_eq]
  exact (pushWords_regs _ _ other).trans (switchStack_regs c tss other)

theorem enter_segs (c : Cpu) (tss : Tss) (gate : BitVec 32) (trap : Bool)
    (error : Option (BitVec 32)) {s : Seg} (outer : s = .ss → ring c.cs = 0) :
    (c.enter tss gate trap error).segs s = c.segs s := by
  rw [enter_eq]
  exact (congrFun (pushWords_segs _ _) s).trans (switchStack_segs c tss outer)

theorem enter_esp (c : Cpu) (tss : Tss) (gate : BitVec 32) (trap : Bool) (error : Option (BitVec 32))
    (inner : ring c.cs = 0) : (c.enter tss gate trap error).regs .esp =
      c.regs .esp - BitVec.ofNat 32 ((3 + error.toList.length) * 4) := by
  rw [enter_eq]
  refine (pushWords_esp _ _).trans ?_
  rw [switchStack, if_pos inner, hardwarePushes, List.length_append]
  rfl

theorem enter_none (c : Cpu) (tss : Tss) (gate : BitVec 32) (trap : Bool) :
    c.Entered (c.enter tss gate trap none) (c.regs .eax) where
  holds := c.enter_holds tss gate trap none _
  regs r other := by
    rw [Function.update_eq_self]
    exact c.enter_regs tss gate trap none other
  esp inner := c.enter_esp tss gate trap none inner
  segs _ outer := c.enter_segs tss gate trap none outer

theorem popReg_regs (c : Cpu) (into : Reg) {r : Reg} (other : r ≠ .esp) :
    (c.popReg into).regs r = Function.update c.regs into c.top r := Function.update_of_ne other ..

theorem popReg_segs (c : Cpu) (into : Reg) : (c.popReg into).segs = c.segs := rfl

theorem enter_some (c : Cpu) (tss : Tss) (gate : BitVec 32) (trap : Bool) (code : BitVec 32) :
    c.Entered ((c.enter tss gate trap (some code)).popReg .eax) code := by
  have holds := c.enter_holds tss gate trap (some code) ((c.enter tss gate trap (some code)).popReg .eax)
  have top : (c.enter tss gate trap (some code)).top = code := holds.1
  refine ⟨(holds.setReg (by decide) _).release, fun r other => ?_, fun inner => ?_, fun s outer => ?_⟩
  · rw [popReg_regs _ _ other, top]
    by_cases accumulator : r = .eax
    · rw [accumulator, Function.update_self, Function.update_self]
    · rw [Function.update_of_ne accumulator, Function.update_of_ne accumulator]
      exact c.enter_regs tss gate trap (some code) other
  · rw [popReg, release_esp, setReg_esp _ (by decide), c.enter_esp tss gate trap (some code) inner]
    show c.regs .esp - 16 + 4 = _
    bv_omega
  · rw [popReg_segs]
    exact c.enter_segs tss gate trap (some code) outer

end Cpu

/-- What the program finds again: every register, with the exception of `eax` where it is the result
of a system call. -/
structure Cpu.Resumed (c resumed : Cpu) (setsResult : Bool) : Prop where
  regs : ∀ r, (r = Reg.eax → setsResult = false) → resumed.regs r = c.regs r
  segs : resumed.segs = c.segs
  cs : resumed.cs = c.cs
  eip : resumed.eip = c.eip
  eflags : resumed.eflags = c.eflags

/-- From where all stubs are alike, the program finds its registers again exactly if `eax` was still
its own. -/
theorem entered_resumed_iff {c entered : Cpu} {eax : BitVec 32} (at_stub : c.Entered entered eax)
    (handler : Handler) (num : BitVec 8) {setsResult : Bool}
    (returns : handler.Returns (entered.run handler (prologue num)) (if ring c.cs = 0 then 16 else 18)
      setsResult) :
    c.Resumed (entered.run handler (isrNoerrcode num)) setsResult ↔
      (setsResult = false → eax = c.regs .eax) := by
  obtain ⟨loads, kept⟩ := isrNoerrcode_spec handler num at_stub.holds rfl rfl returns
  rw [loads]
  have accumulator : entered.regs .eax = eax := by
    rw [at_stub.regs .eax (by decide)]
    exact Function.update_self ..
  refine ⟨fun resumed keeps => ?_, fun same => ?_⟩
  · have result := resumed.regs .eax fun _ => keeps
    rw [← result, ← accumulator, ← kept keeps]
    simp [Saved.loaded]
  · refine ⟨fun r result => ?_, ?_, rfl, rfl, rfl⟩
    · by_cases pointer : r = .esp
      · subst pointer
        show (if ring c.cs = 0 then _ else _) = c.regs .esp
        split
        · rename_i inner
          rw [at_stub.esp inner]
          bv_omega
        · rfl
      · show (if r = .esp then _ else Function.update entered.regs .eax _ r) = c.regs r
        rw [if_neg pointer]
        by_cases field : r = .eax
        · subst field
          rw [Function.update_self, kept (result rfl), accumulator, same (result rfl)]
        · rw [Function.update_of_ne field, at_stub.regs r pointer, Function.update_of_ne field]
    · funext s
      show (if s = .ss ∧ ring c.cs ≠ 0 then c.segs .ss else entered.segs s) = c.segs s
      split
      · rename_i outer
        rw [outer.1]
      · rename_i outer
        exact at_stub.segs s fun stack => by_contra fun inner => outer ⟨stack, inner⟩

/-- An interrupt, and what the processor uses for it: the stack in the TSS, the address in the gate and
the error code (of the vectors that have one). -/
structure Interruption where
  vector : Vector
  tss : Cpu.Tss
  gate : BitVec 32
  code : BitVec 32

namespace Interruption

/-- The processor at the stub. -/
def entered (i : Interruption) (c : Cpu) : Cpu :=
  c.enter i.tss i.gate i.vector.trap (i.vector.error i.code)

/-- The processor where the stub calls the handler. -/
def called (i : Interruption) (handler : Handler) (c : Cpu) : Cpu :=
  (i.entered c).run handler (i.vector.stub.takeWhile (· ≠ .call))

/-- The processor after the stub. -/
def resumed (i : Interruption) (handler : Handler) (c : Cpu) : Cpu :=
  (i.entered c).run handler i.vector.stub

end Interruption

/-- `SyscallDispatch` stores a result in the field `eax`. -/
def Vector.setsResult : Vector → Bool
  | .syscall => true
  | _ => false

namespace Vector

def num : Vector → BitVec 8
  | .errcode num _ => num
  | .hardware line => 32 + BitVec.ofNat 8 line
  | .syscall => 0x80

/-- What a stub does before the instructions that all of them share. -/
def removes : Vector → List Instr
  | .errcode _ _ => [.pop .eax]
  | _ => []

theorem stub_eq (vector : Vector) :
    vector.stub = vector.removes ++ (prologue vector.num ++ .call :: epilogue) := by
  cases vector <;> rfl

theorem takeWhile_stub (vector : Vector) :
    vector.stub.takeWhile (· ≠ .call) = vector.removes ++ prologue vector.num := by
  have plain : ∀ instr ∈ vector.removes ++ prologue vector.num, decide (instr ≠ .call) = true := by
    cases vector <;> simp [removes, prologue]
  rw [stub_eq, ← List.append_assoc, List.takeWhile_append_of_pos plain,
    List.takeWhile_cons_of_neg (by simp), List.append_nil]

end Vector

theorem entered_removes (i : Interruption) (handler : Handler) (c : Cpu) :
    c.Entered ((i.entered c).run handler i.vector.removes) ((i.vector.error i.code).getD (c.regs .eax)) := by
  obtain ⟨vector, tss, gate, code⟩ := i
  cases vector with
  | errcode num pushes => exact c.enter_some tss gate false code
  | hardware line => exact c.enter_none tss gate false
  | syscall => exact c.enter_none tss gate true

/-- **The context of the program** is preserved, exactly if there was no error code to remove or the
error code happened to be what `eax` held. -/
theorem resumed_iff (i : Interruption) (handler : Handler) (c : Cpu)
    (returns : handler.Returns (i.called handler c) (if ring c.cs = 0 then 16 else 18) i.vector.setsResult) :
    c.Resumed (i.resumed handler c) i.vector.setsResult ↔
      ∀ code ∈ i.vector.error i.code, code = c.regs .eax := by
  rw [Interruption.called, Vector.takeWhile_stub, Cpu.run_append] at returns
  have shared : i.resumed handler c =
      ((i.entered c).run handler i.vector.removes).run handler (isrNoerrcode i.vector.num) := by
    rw [Interruption.resumed, Vector.stub_eq, Cpu.run_append]
    rfl
  rw [shared, entered_resumed_iff (entered_removes i handler c) handler _ returns]
  cases i.vector with
  | errcode num pushes => simp [Vector.setsResult, Vector.error]
  | hardware line => simp [Vector.error]
  | syscall => simp [Vector.error]

/-! ### A new process -/

/-- The words that `Process::Process` stores through `--kstack`. -/
def processWords (entryPoint pid : BitVec 32) : List (BitVec 32) :=
  let userStackTop := 0x00C00000 + pid * 0x10000
  [0x23, userStackTop, 0x202, 0x1B, entryPoint] ++
    [0, 0, 0, 0, 0, 0, 0, 0] ++
    [0x23, 0x23, 0x23, 0x23, 0x10]

/-- The memory after `Process::Process`, and `cpu_state.esp`. -/
def processFrame (memory : BitVec 32 → BitVec 32) (kernelStackTop entryPoint pid : BitVec 32) :
    (BitVec 32 → BitVec 32) × BitVec 32 :=
  pushAll 4 memory kernelStackTop (processWords entryPoint pid)

/-- The frame as a stub reads it. -/
def startOf (entryPoint pid : BitVec 32) : Saved where
  regs _ := 0
  segs s := if s = .ss then 0x10 else 0x23
  eip := entryPoint
  cs := 0x1B
  eflags := 0x202
  userEsp := 0x00C00000 + pid * 0x10000
  userSs := 0x23

theorem startOf_words (entryPoint pid : BitVec 32) :
    (startOf entryPoint pid).words = (processWords entryPoint pid).reverse := by
  simp [Saved.words, Saved.pushed, segWords, regWords, startOf, ring, processWords]

theorem epilogue_processFrame (handler : Handler) (c : Cpu) (memory : BitVec 32 → BitVec 32)
    (kernelStackTop entryPoint pid : BitVec 32)
    (switched : c.regs .eax = (processFrame memory kernelStackTop entryPoint pid).2)
    (unchanged : ∀ k < 18, c.memory (wordAddress 4 (c.regs .eax) k) =
      (processFrame memory kernelStackTop entryPoint pid).1 (wordAddress 4 (c.regs .eax) k)) :
    c.run handler epilogue = (startOf entryPoint pid).loaded c.memory (c.regs .eax) := by
  have spelled : Spelled 4 (processFrame memory kernelStackTop entryPoint pid).1 (c.regs .eax)
      (startOf entryPoint pid).words := by
    rw [startOf_words, switched, ← List.append_nil (List.reverse _)]
    have empty : Spelled 4 memory kernelStackTop [] := trivial
    exact empty.pushAll (by decide) _ (by simp [processWords])
  refine epilogue_spec handler c (startOf entryPoint pid) (spelled.congr fun k bound => ?_)
  exact unchanged k (by rwa [startOf_words] at bound)

/-! ### Entry and exit -/

/-- **Interrupt entry and exit.** If the handler returns the stack pointer that it was given, the program
finds its registers again exactly if `eax` held the error code that its stub removed, or there was none;
and the frame of a new process starts it in ring 3, at its entry point, on its stack, with interrupts
enabled. -/
theorem context_preserved_iff (i : Interruption) (handler : Handler) (c : Cpu)
    (memory : BitVec 32 → BitVec 32) (kernelStackTop entryPoint pid : BitVec 32) (fresh : Cpu) :
    (handler.Returns (i.called handler c) (if ring c.cs = 0 then 16 else 18) i.vector.setsResult →
      (c.Resumed (i.resumed handler c) i.vector.setsResult ↔
        ∀ code ∈ i.vector.error i.code, code = c.regs .eax)) ∧
    (fresh.regs .eax = (processFrame memory kernelStackTop entryPoint pid).2 →
      (∀ k < 18, fresh.memory (wordAddress 4 (fresh.regs .eax) k) =
        (processFrame memory kernelStackTop entryPoint pid).1 (wordAddress 4 (fresh.regs .eax) k)) →
      let started := fresh.run handler epilogue
      ring started.cs = 3 ∧ started.eip = entryPoint ∧
        started.regs .esp = 0x00C00000 + pid * 0x10000 ∧ started.eflags.getLsbD 9 = true) := by
  refine ⟨resumed_iff i handler c, fun switched unchanged => ?_⟩
  intro started
  have loads : started = (startOf entryPoint pid).loaded fresh.memory (fresh.regs .eax) :=
    epilogue_processFrame handler fresh memory kernelStackTop entryPoint pid switched unchanged
  rw [loads]
  have user : ring (startOf entryPoint pid).cs = 3 := by
    show ring 0x1B = 3
    decide
  have enabled : (0x202 : BitVec 32).getLsbD 9 = true := by decide
  refine ⟨user, rfl, ?_, enabled⟩
  simp only [Saved.loaded, if_true, user]
  rfl

/-- A program in ring 3. -/
def userProgram : Cpu where
  regs r := if r = .eax then 1 else if r = .esp then 0x00C10000 else 0
  segs _ := 0x23
  cs := 0x1B
  eip := 0x00400000
  eflags := 0x202
  memory _ := 0

/-- The handler where none is registered: `HandleInterrupt` returns its argument. -/
def noHandler : Handler := fun called =>
  { result := called.frameArgument
    ecx := called.regs .ecx
    edx := called.regs .edx
    memory := called.memory }

theorem noHandler_returns (called : Cpu) (count : Nat) (setsResult : Bool) :
    noHandler.Returns called count setsResult := ⟨rfl, fun _ _ _ => rfl⟩

def timerTick : Interruption where
  vector := .hardware 0
  tss := { ss0 := 0x10, esp0 := 0x00300000 }
  gate := 0x00100000
  code := 0

/-- A general protection fault; its error code is zero, or a selector. -/
def protectionFault : Interruption where
  vector := .errcode 13 (by decide)
  tss := { ss0 := 0x10, esp0 := 0x00300000 }
  gate := 0x00100000
  code := 0

/-- The processor with the frame of a new process in `eax`, as the scheduler returns it. -/
def switchedTo (kernelStackTop entryPoint pid : BitVec 32) : Cpu :=
  { userProgram with
    regs := fun _ => (processFrame (fun _ => 0) kernelStackTop entryPoint pid).2
    memory := (processFrame (fun _ => 0) kernelStackTop entryPoint pid).1 }

/-- The program goes on after a tick of the timer, and process 1 starts at its entry point. -/
theorem context_preserved_timer : userProgram.Resumed (timerTick.resumed noHandler userProgram) false ∧
      ((switchedTo 0x00300000 0x00400000 1).run noHandler epilogue).eip = 0x00400000 := by
  obtain ⟨resumes, starts⟩ := context_preserved_iff timerTick noHandler userProgram (fun _ => 0)
    0x00300000 0x00400000 1 (switchedTo 0x00300000 0x00400000 1)
  constructor
  · refine (resumes (noHandler_returns _ _ _)).mpr ?_
    intro code mem
    cases mem
  · exact (starts rfl fun _ _ => rfl).2.1

/-- A protection fault for which no handler is registered returns into the program with the error code
in `eax`. -/
theorem protectionFault_clobbers_eax :
    noHandler.Returns (protectionFault.called noHandler userProgram) 18 false ∧
      ¬ userProgram.Resumed (protectionFault.resumed noHandler userProgram) false := by
  refine ⟨noHandler_returns _ _ _, fun resumed => ?_⟩
  have code := (resumed_iff protectionFault noHandler userProgram (noHandler_returns _ _ _)).mp resumed
  exact absurd (code 0 rfl) (by decide)

end LaylaOS.Kernel
