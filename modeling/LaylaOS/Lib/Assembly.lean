/-
**Programs in 32-bit assembly.**

The instructions of a program stand in labelled blocks; a block that does not end in a jump goes on to
the next one. The operands are in the order of the GNU assembler, the source first. The stack is apart
from the memory that the program addresses, and a system call is what the `Kernel` answers.

Two fields record what a run did and are never read: `stores`, the addresses stored to, and `overflow`,
whether a result did not fit into 32 bits.
-/

import Mathlib.Tactic
import Mathlib.Logic.Function.Iterate

namespace LaylaOS.Lib.Assembly

/-! ### Registers, flags and operands -/

inductive Reg
  | eax
  | ebx
  | ecx
  | edx
  | esi
  | edi
  deriving DecidableEq, Repr

/-- The registers besides the stack pointer. -/
@[ext]
structure Regs where
  eax : UInt32
  ebx : UInt32
  ecx : UInt32
  edx : UInt32
  esi : UInt32
  edi : UInt32

namespace Regs

@[simp] def get (regs : Regs) : Reg → UInt32
  | .eax => regs.eax
  | .ebx => regs.ebx
  | .ecx => regs.ecx
  | .edx => regs.edx
  | .esi => regs.esi
  | .edi => regs.edi

@[simp] def set (regs : Regs) (value : UInt32) : Reg → Regs
  | .eax => { regs with eax := value }
  | .ebx => { regs with ebx := value }
  | .ecx => { regs with ecx := value }
  | .edx => { regs with edx := value }
  | .esi => { regs with esi := value }
  | .edi => { regs with edi := value }

theorem get_set_same (regs : Regs) (value : UInt32) (r : Reg) : (regs.set value r).get r = value := by
  cases r <;> rfl

theorem get_set_of_ne (regs : Regs) (value : UInt32) {r q : Reg} (other : q ≠ r) :
    (regs.set value r).get q = regs.get q := by
  cases r <;> cases q <;> first | rfl | exact absurd rfl other

end Regs

/-- The low byte of a register: `%al` of `%eax`. -/
def low (value : UInt32) : UInt8 := UInt8.ofNat value.toNat

/-- The register with another low byte. -/
def withLow (value : UInt32) (byte : UInt8) : UInt32 :=
  UInt32.ofNat (value.toNat / 256 * 256 + byte.toNat)

/-- The carry and zero flags, and whether the sign and overflow flags differ. -/
structure Flags where
  carry : Bool
  zero : Bool
  less : Bool

/-- The flags of a result, as the logical instructions set them. -/
def Flags.ofResult (value : UInt32) : Flags := ⟨false, value = 0, value.toInt32 < 0⟩

/-- The flags of `dst - src`. -/
def Flags.ofSub (dst src : UInt32) : Flags :=
  ⟨dst < src, dst = src, dst.toInt32.toInt < src.toInt32.toInt⟩

/-- The flags of a difference of two bytes. -/
def Flags.ofSubByte (dst src : UInt8) : Flags :=
  ⟨dst < src, dst = src, dst.toInt8.toInt < src.toInt8.toInt⟩

/-- The flags of `x + 1`: the carry stays. -/
def Flags.inc (flags : Flags) (x : UInt32) : Flags := ⟨flags.carry, x + 1 = 0, x.toInt32.toInt + 1 < 0⟩

/-- The flags of `x - 1`: the carry stays. -/
def Flags.dec (flags : Flags) (x : UInt32) : Flags := ⟨flags.carry, x - 1 = 0, x.toInt32.toInt - 1 < 0⟩

/-- The flags of `x + y`. -/
def Flags.ofAdd (x y : UInt32) : Flags :=
  ⟨2 ^ 32 ≤ x.toNat + y.toNat, x + y = 0, x.toInt32.toInt + y.toInt32.toInt < 0⟩

/-- The flags of `x * y`, of which the zero and sign flags are undefined: they stay here. -/
def Flags.mul (flags : Flags) (x y : UInt32) : Flags :=
  { flags with carry := (x * y).toInt32.toInt ≠ x.toInt32.toInt * y.toInt32.toInt }

/-- `x` shifted to the left. -/
def shifted (x : UInt32) (count : Nat) : UInt32 := UInt32.ofNat (x.toNat * 2 ^ count)

/-- The flags of a shift, of which the overflow flag is undefined: it stays here. -/
def Flags.shl (flags : Flags) (x : UInt32) (count : Nat) : Flags :=
  ⟨x.toNat * 2 ^ count / 2 ^ 32 % 2 = 1, shifted x count = 0, flags.less⟩

inductive Cond
  | e
  | ne
  | b
  | ae
  | a
  | be
  | l
  deriving DecidableEq, Repr

def Cond.holds (flags : Flags) : Cond → Bool
  | .e => flags.zero
  | .ne => !flags.zero
  | .b => flags.carry
  | .ae => !flags.carry
  | .a => !flags.carry && !flags.zero
  | .be => flags.carry || flags.zero
  | .l => flags.less

section Conditions

variable (flags : Flags) (x y : UInt32) (c d : UInt8)

@[simp] theorem Cond.holds_e : Cond.holds flags .e = flags.zero := rfl
@[simp] theorem Cond.holds_ne : Cond.holds flags .ne = !flags.zero := rfl
@[simp] theorem Cond.holds_b : Cond.holds flags .b = flags.carry := rfl
@[simp] theorem Cond.holds_ae : Cond.holds flags .ae = !flags.carry := rfl
@[simp] theorem Cond.holds_l : Cond.holds flags .l = flags.less := rfl

@[simp] theorem Flags.carry_ofSub : (Flags.ofSub x y).carry = decide (x < y) := rfl
@[simp] theorem Flags.zero_ofSub : (Flags.ofSub x y).zero = decide (x = y) := rfl
@[simp] theorem Flags.carry_ofSubByte : (Flags.ofSubByte c d).carry = decide (c < d) := rfl
@[simp] theorem Flags.zero_ofSubByte : (Flags.ofSubByte c d).zero = decide (c = d) := rfl
@[simp] theorem Flags.zero_ofResult : (Flags.ofResult x).zero = decide (x = 0) := rfl
@[simp] theorem Flags.less_ofResult : (Flags.ofResult x).less = decide (x.toInt32 < 0) := rfl
@[simp] theorem Flags.zero_dec : (flags.dec x).zero = decide (x - 1 = 0) := rfl

@[simp] theorem Cond.holds_a_ofSub : Cond.holds (.ofSub x y) .a = decide (y < x) := by
  rw [Bool.eq_iff_iff, decide_eq_true_iff, UInt32.lt_iff_le_and_ne, ← UInt32.not_lt]
  simp [Cond.holds, ne_comm]

@[simp] theorem Cond.holds_be_ofSub : Cond.holds (.ofSub x y) .be = decide (x ≤ y) := by
  rw [Bool.eq_iff_iff, decide_eq_true_iff, UInt32.le_iff_lt_or_eq]
  simp [Cond.holds]

@[simp] theorem Cond.holds_a_ofSubByte : Cond.holds (.ofSubByte c d) .a = decide (d < c) := by
  rw [Bool.eq_iff_iff, decide_eq_true_iff, UInt8.lt_iff_le_and_ne, ← UInt8.not_lt]
  simp [Cond.holds, ne_comm]

end Conditions

/-- A place in memory. -/
inductive Operand
  /-- `symbol` -/
  | abs (symbol : UInt32)
  /-- `(%base)` -/
  | ind (base : Reg)
  /-- `disp(%base)` -/
  | off (disp : UInt32) (base : Reg)
  /-- `(%base,%index)` -/
  | idx (base index : Reg)
  /-- `-1(%base,%index)` -/
  | before (base index : Reg)
  deriving DecidableEq, Repr

@[simp] def Operand.address (regs : Regs) : Operand → UInt32
  | .abs symbol => symbol
  | .ind base => regs.get base
  | .off disp base => disp + regs.get base
  | .idx base index => regs.get base + regs.get index
  | .before base index => regs.get base + regs.get index - 1

/-! ### Instructions -/

inductive Instr (Λ : Type)
  /-- `mov $value, %dst` -/
  | movImm (value : UInt32) (dst : Reg)
  /-- `mov %src, %dst` -/
  | mov (src dst : Reg)
  /-- `mov mem, %dst` -/
  | load (src : Operand) (dst : Reg)
  /-- `mov %src, mem` -/
  | store (src : Reg) (dst : Operand)
  /-- `movl $value, mem` -/
  | storeImm (value : UInt32) (dst : Operand)
  /-- `movb mem, %dst`, into the low byte. -/
  | movb (src : Operand) (dst : Reg)
  /-- `movzbl mem, %dst` -/
  | movzbl (src : Operand) (dst : Reg)
  /-- `movb %src, mem`, from the low byte. -/
  | storeb (src : Reg) (dst : Operand)
  /-- `movb $value, mem` -/
  | storebImm (value : UInt8) (dst : Operand)
  | inc (dst : Reg)
  | dec (dst : Reg)
  | xor (src dst : Reg)
  | or (src dst : Reg)
  | add (src dst : Reg)
  /-- `sub $value, %dst` -/
  | subImm (value : UInt32) (dst : Reg)
  /-- `imul $value, %src, %dst` -/
  | imul (value : UInt32) (src dst : Reg)
  /-- `shl $count, %dst` -/
  | shl (count : Nat) (dst : Reg)
  /-- `cmp $value, %dst` -/
  | cmp (value : UInt32) (dst : Reg)
  /-- `cmp $value, %dst`, on the low byte. -/
  | cmpb (value : UInt8) (dst : Reg)
  /-- `test %dst, %dst` -/
  | test (dst : Reg)
  | jmp (target : Λ)
  | jcc (cond : Cond) (target : Λ)
  | call (target : Λ)
  | ret
  | push (src : Reg)
  | pop (dst : Reg)
  | clc
  | stc
  /-- `int $0x80` -/
  | int

/-- The blocks of a program, and the block behind each one. -/
structure Program (Λ : Type) where
  block : Λ → List (Instr Λ)
  next : Λ → Λ

/-- What the stack holds: a word, or the place to return to. -/
inductive Slot (Λ : Type)
  | word (value : UInt32)
  | ret (label : Λ) (rest : List (Instr Λ))

abbrev Memory := UInt32 → UInt8

/-- What a system call does: its result in `%eax`, the bytes it stores, and the rest of the world. -/
structure Answer (ω : Type) where
  eax : UInt32
  stores : List (UInt32 × UInt8)
  world : ω

abbrev Kernel (ω : Type) := Regs → Memory → ω → Answer ω

/-- The state of a program. `rest` is what is left of the block. -/
structure Machine (Λ ω : Type) where
  regs : Regs
  memory : Memory
  flags : Flags
  stack : List (Slot Λ)
  label : Λ
  rest : List (Instr Λ)
  world : ω
  stores : List UInt32
  overflow : Bool

/-- Bytes stored one after the other. -/
def storeAll (memory : Memory) (stores : List (UInt32 × UInt8)) : Memory :=
  stores.foldl (fun memory store => Function.update memory store.1 store.2) memory

@[simp] theorem storeAll_nil (memory : Memory) : storeAll memory [] = memory := rfl

/-- The four bytes of a word, the low one first. -/
def wordStores (a value : UInt32) : List (UInt32 × UInt8) :=
  [(a, UInt8.ofNat value.toNat), (a + 1, UInt8.ofNat (value.toNat / 256)),
    (a + 2, UInt8.ofNat (value.toNat / 256 ^ 2)), (a + 3, UInt8.ofNat (value.toNat / 256 ^ 3))]

/-- The word at an address. -/
def wordAt (memory : Memory) (a : UInt32) : UInt32 :=
  UInt32.ofNat ((memory a).toNat + 256 * (memory (a + 1)).toNat + 256 ^ 2 * (memory (a + 2)).toNat +
    256 ^ 3 * (memory (a + 3)).toNat)

namespace Machine

variable {Λ ω : Type}

def setReg (m : Machine Λ ω) (r : Reg) (value : UInt32) : Machine Λ ω :=
  { m with regs := m.regs.set value r }

/-- The result of an arithmetic instruction, and its flags. -/
def result (m : Machine Λ ω) (r : Reg) (value : UInt32) (flags : Flags) (exact : Bool) :
    Machine Λ ω :=
  { m with regs := m.regs.set value r, flags := flags, overflow := m.overflow || !exact }

def storeAll (m : Machine Λ ω) (stores : List (UInt32 × UInt8)) : Machine Λ ω :=
  { m with memory := Assembly.storeAll m.memory stores, stores := stores.map Prod.fst ++ m.stores }

def storeByte (m : Machine Λ ω) (a : UInt32) (byte : UInt8) : Machine Λ ω :=
  { m with memory := Function.update m.memory a byte, stores := a :: m.stores }

def goto (p : Program Λ) (m : Machine Λ ω) (l : Λ) : Machine Λ ω :=
  { m with label := l, rest := p.block l }

/-- One instruction, with `rest` behind it. `pop` and `ret` do not go on if the stack holds something
else. -/
def exec (p : Program Λ) (kernel : Kernel ω) (m : Machine Λ ω) : Instr Λ → Machine Λ ω
  | .movImm value dst => m.setReg dst value
  | .mov src dst => m.setReg dst (m.regs.get src)
  | .load src dst => m.setReg dst (wordAt m.memory (src.address m.regs))
  | .store src dst => m.storeAll (wordStores (dst.address m.regs) (m.regs.get src))
  | .storeImm value dst => m.storeAll (wordStores (dst.address m.regs) value)
  | .movb src dst => m.setReg dst (withLow (m.regs.get dst) (m.memory (src.address m.regs)))
  | .movzbl src dst => m.setReg dst (m.memory (src.address m.regs)).toUInt32
  | .storeb src dst => m.storeByte (dst.address m.regs) (low (m.regs.get src))
  | .storebImm value dst => m.storeByte (dst.address m.regs) value
  | .inc dst =>
    let x := m.regs.get dst
    m.result dst (x + 1) (m.flags.inc x) (x.toNat + 1 < 2 ^ 32)
  | .dec dst =>
    let x := m.regs.get dst
    m.result dst (x - 1) (m.flags.dec x) (0 < x.toNat)
  | .xor src dst =>
    let x := m.regs.get dst ^^^ m.regs.get src
    { m.setReg dst x with flags := .ofResult x }
  | .or src dst =>
    let x := m.regs.get dst ||| m.regs.get src
    { m.setReg dst x with flags := .ofResult x }
  | .add src dst =>
    let x := m.regs.get dst
    let y := m.regs.get src
    m.result dst (x + y) (.ofAdd x y) (x.toNat + y.toNat < 2 ^ 32)
  | .subImm value dst =>
    let x := m.regs.get dst
    m.result dst (x - value) (.ofSub x value) (value ≤ x)
  | .imul value src dst =>
    let x := m.regs.get src
    m.result dst (x * value) (m.flags.mul x value) (x.toNat * value.toNat < 2 ^ 32)
  | .shl count dst =>
    let x := m.regs.get dst
    m.result dst (shifted x count) (m.flags.shl x count) (x.toNat * 2 ^ count < 2 ^ 32)
  | .cmp value dst => { m with flags := .ofSub (m.regs.get dst) value }
  | .cmpb value dst => { m with flags := .ofSubByte (low (m.regs.get dst)) value }
  | .test dst => { m with flags := .ofResult (m.regs.get dst) }
  | .jmp target => m.goto p target
  | .jcc cond target => if cond.holds m.flags then m.goto p target else m
  | .call target => { m with stack := .ret m.label m.rest :: m.stack }.goto p target
  | .ret =>
    match m.stack with
    | .ret label rest :: stack => { m with label := label, rest := rest, stack := stack }
    | _ => { m with rest := [.ret] }
  | .push src => { m with stack := .word (m.regs.get src) :: m.stack }
  | .pop dst =>
    match m.stack with
    | .word value :: stack => { m.setReg dst value with stack := stack }
    | _ => { m with rest := .pop dst :: m.rest }
  | .clc => { m with flags := { m.flags with carry := false } }
  | .stc => { m with flags := { m.flags with carry := true } }
  | .int =>
    let answer := kernel m.regs m.memory m.world
    { (m.setReg .eax answer.eax).storeAll answer.stores with world := answer.world }

end Machine

/-- One step: the next instruction, or on to the next block. -/
def Program.step {Λ ω : Type} (p : Program Λ) (kernel : Kernel ω) (m : Machine Λ ω) : Machine Λ ω :=
  match m.rest with
  | [] => m.goto p (p.next m.label)
  | instr :: rest => { m with rest := rest }.exec p kernel instr

/-! ### Runs -/

section Runs

variable {Λ ω : Type} (p : Program Λ) (kernel : Kernel ω)

/-- From `m` the program comes to a state in `Q`. -/
def Runs (m : Machine Λ ω) (Q : Machine Λ ω → Prop) : Prop := ∃ n, Q ((p.step kernel)^[n] m)

variable {p kernel} {m : Machine Λ ω} {P Q : Machine Λ ω → Prop}

theorem Runs.next (run : Runs p kernel (p.step kernel m) Q) : Runs p kernel m Q := by
  obtain ⟨n, there⟩ := run
  exact ⟨n + 1, there⟩

theorem Runs.now (here : Q m) : Runs p kernel m Q := ⟨0, here⟩

theorem Runs.trans (first : Runs p kernel m P) (second : ∀ m', P m' → Runs p kernel m' Q) :
    Runs p kernel m Q := by
  obtain ⟨n, there⟩ := first
  obtain ⟨k, done⟩ := second _ there
  refine ⟨k + n, ?_⟩
  rwa [Function.iterate_add_apply]

theorem Runs.mono (run : Runs p kernel m P) (weaker : ∀ m', P m' → Q m') : Runs p kernel m Q :=
  run.trans fun m' there => .now (weaker m' there)

theorem Runs.and_of_stays (first : Runs p kernel m P) (second : Runs p kernel m Q)
    (stays : ∀ m', P m' → p.step kernel m' = m') (stays' : ∀ m', Q m' → p.step kernel m' = m') :
    Runs p kernel m fun m' => P m' ∧ Q m' := by
  obtain ⟨n, there⟩ := first
  obtain ⟨k, there'⟩ := second
  have same : (p.step kernel)^[n] m = (p.step kernel)^[k] m := by
    calc (p.step kernel)^[n] m = (p.step kernel)^[k] ((p.step kernel)^[n] m) :=
          (Function.iterate_fixed (stays _ there) k).symm
      _ = (p.step kernel)^[n] ((p.step kernel)^[k] m) := by
          rw [← Function.iterate_add_apply, ← Function.iterate_add_apply, Nat.add_comm]
      _ = (p.step kernel)^[k] m := Function.iterate_fixed (stays' _ there') n
  exact ⟨n, there, same ▸ there'⟩

theorem overflow_same {overflow : Bool} {P : Prop} [Decidable P] (fits : P) :
    (overflow || !decide P) = overflow := by
  rw [decide_eq_true fits, Bool.not_true, Bool.or_false]

/-! ### One rule for each instruction -/

variable {regs : Regs} {memory : Memory} {flags : Flags} {stack : List (Slot Λ)} {label target : Λ}
  {rest back : List (Instr Λ)} {world : ω} {stores : List UInt32} {overflow : Bool}
  {value : UInt32} {byte : UInt8} {src dst : Reg} {place : Operand} {count : Nat} {cond : Cond}

theorem Runs.enter (run : Runs p kernel
    ⟨m.regs, m.memory, m.flags, m.stack, target, p.block target, m.world, m.stores, m.overflow⟩ Q) :
    Runs p kernel (m.goto p target) Q := run

theorem Runs.fall (run : Runs p kernel
    (Machine.goto p ⟨regs, memory, flags, stack, label, [], world, stores, overflow⟩ (p.next label)) Q) :
    Runs p kernel ⟨regs, memory, flags, stack, label, [], world, stores, overflow⟩ Q := .next run

theorem Runs.movImm (run : Runs p kernel ⟨regs.set value dst, memory, flags, stack, label, rest, world, stores,
      overflow⟩ Q) :
    Runs p kernel ⟨regs, memory, flags, stack, label, .movImm value dst :: rest, world, stores,
      overflow⟩ Q := .next run

theorem Runs.mov
    (run : Runs p kernel ⟨regs.set (regs.get src) dst, memory, flags, stack, label, rest, world, stores,
      overflow⟩ Q) :
    Runs p kernel ⟨regs, memory, flags, stack, label, .mov src dst :: rest, world, stores,
      overflow⟩ Q := .next run

theorem Runs.load
    (run : Runs p kernel ⟨regs.set (wordAt memory (place.address regs)) dst, memory, flags, stack, label,
      rest, world, stores, overflow⟩ Q) :
    Runs p kernel ⟨regs, memory, flags, stack, label, .load place dst :: rest, world, stores,
      overflow⟩ Q := .next run

theorem Runs.store
    (run : Runs p kernel ⟨regs, storeAll memory (wordStores (place.address regs) (regs.get src)), flags,
      stack, label, rest, world, (wordStores (place.address regs) (regs.get src)).map Prod.fst ++ stores,
      overflow⟩ Q) :
    Runs p kernel ⟨regs, memory, flags, stack, label, .store src place :: rest, world, stores,
      overflow⟩ Q := .next run

theorem Runs.storeImm
    (run : Runs p kernel ⟨regs, storeAll memory (wordStores (place.address regs) value), flags, stack,
      label, rest, world, (wordStores (place.address regs) value).map Prod.fst ++ stores, overflow⟩ Q) :
    Runs p kernel ⟨regs, memory, flags, stack, label, .storeImm value place :: rest, world, stores,
      overflow⟩ Q := .next run

theorem Runs.movb
    (run : Runs p kernel ⟨regs.set (withLow (regs.get dst) (memory (place.address regs))) dst, memory,
      flags, stack, label, rest, world, stores, overflow⟩ Q) :
    Runs p kernel ⟨regs, memory, flags, stack, label, .movb place dst :: rest, world, stores,
      overflow⟩ Q := .next run

theorem Runs.movzbl
    (run : Runs p kernel ⟨regs.set (memory (place.address regs)).toUInt32 dst, memory, flags, stack, label,
      rest, world, stores, overflow⟩ Q) :
    Runs p kernel ⟨regs, memory, flags, stack, label, .movzbl place dst :: rest, world, stores,
      overflow⟩ Q := .next run

theorem Runs.storeb
    (run : Runs p kernel ⟨regs, Function.update memory (place.address regs) (low (regs.get src)), flags,
      stack, label, rest, world, place.address regs :: stores, overflow⟩ Q) :
    Runs p kernel ⟨regs, memory, flags, stack, label, .storeb src place :: rest, world, stores,
      overflow⟩ Q := .next run

theorem Runs.storebImm
    (run : Runs p kernel ⟨regs, Function.update memory (place.address regs) byte, flags, stack, label,
      rest, world, place.address regs :: stores, overflow⟩ Q) :
    Runs p kernel ⟨regs, memory, flags, stack, label, .storebImm byte place :: rest, world, stores,
      overflow⟩ Q := .next run

theorem Runs.inc
    (run : Runs p kernel ⟨regs.set (regs.get dst + 1) dst, memory, flags.inc (regs.get dst), stack, label,
      rest, world, stores, overflow || !decide ((regs.get dst).toNat + 1 < 2 ^ 32)⟩ Q) :
    Runs p kernel ⟨regs, memory, flags, stack, label, .inc dst :: rest, world, stores, overflow⟩ Q := .next run

theorem Runs.dec
    (run : Runs p kernel ⟨regs.set (regs.get dst - 1) dst, memory, flags.dec (regs.get dst), stack, label,
      rest, world, stores, overflow || !decide (0 < (regs.get dst).toNat)⟩ Q) :
    Runs p kernel ⟨regs, memory, flags, stack, label, .dec dst :: rest, world, stores, overflow⟩ Q := .next run

theorem Runs.xor_self
    (run : Runs p kernel ⟨regs.set 0 dst, memory, .ofResult 0, stack, label, rest, world, stores, overflow⟩ Q) :
    Runs p kernel ⟨regs, memory, flags, stack, label, .xor dst dst :: rest, world, stores, overflow⟩ Q := by
  refine .next ?_
  show Runs p kernel ⟨regs.set (regs.get dst ^^^ regs.get dst) dst, memory,
    .ofResult (regs.get dst ^^^ regs.get dst), stack, label, rest, world, stores, overflow⟩ Q
  rwa [UInt32.xor_self]

theorem Runs.or (run : Runs p kernel ⟨regs.set (regs.get dst ||| regs.get src) dst, memory,
      .ofResult (regs.get dst ||| regs.get src), stack, label, rest, world, stores, overflow⟩ Q) :
    Runs p kernel ⟨regs, memory, flags, stack, label, .or src dst :: rest, world, stores,
      overflow⟩ Q := .next run

theorem Runs.add (run : Runs p kernel ⟨regs.set (regs.get dst + regs.get src) dst, memory,
      .ofAdd (regs.get dst) (regs.get src), stack, label, rest, world, stores,
      overflow || !decide ((regs.get dst).toNat + (regs.get src).toNat < 2 ^ 32)⟩ Q) :
    Runs p kernel ⟨regs, memory, flags, stack, label, .add src dst :: rest, world, stores,
      overflow⟩ Q := .next run

theorem Runs.subImm
    (run : Runs p kernel ⟨regs.set (regs.get dst - value) dst, memory, .ofSub (regs.get dst) value, stack,
      label, rest, world, stores, overflow || !decide (value ≤ regs.get dst)⟩ Q) :
    Runs p kernel ⟨regs, memory, flags, stack, label, .subImm value dst :: rest, world, stores,
      overflow⟩ Q := .next run

theorem Runs.imul
    (run : Runs p kernel ⟨regs.set (regs.get src * value) dst, memory, flags.mul (regs.get src) value,
      stack, label, rest, world, stores,
      overflow || !decide ((regs.get src).toNat * value.toNat < 2 ^ 32)⟩ Q) :
    Runs p kernel ⟨regs, memory, flags, stack, label, .imul value src dst :: rest, world, stores,
      overflow⟩ Q := .next run

theorem Runs.shl (run : Runs p kernel ⟨regs.set (shifted (regs.get dst) count) dst, memory,
      flags.shl (regs.get dst) count, stack, label, rest, world, stores,
      overflow || !decide ((regs.get dst).toNat * 2 ^ count < 2 ^ 32)⟩ Q) :
    Runs p kernel ⟨regs, memory, flags, stack, label, .shl count dst :: rest, world, stores,
      overflow⟩ Q := .next run

theorem Runs.cmp
    (run : Runs p kernel ⟨regs, memory, .ofSub (regs.get dst) value, stack, label, rest, world, stores,
      overflow⟩ Q) :
    Runs p kernel ⟨regs, memory, flags, stack, label, .cmp value dst :: rest, world, stores,
      overflow⟩ Q := .next run

theorem Runs.cmpb
    (run : Runs p kernel ⟨regs, memory, .ofSubByte (low (regs.get dst)) byte, stack, label, rest, world,
      stores, overflow⟩ Q) :
    Runs p kernel ⟨regs, memory, flags, stack, label, .cmpb byte dst :: rest, world, stores,
      overflow⟩ Q := .next run

theorem Runs.test
    (run : Runs p kernel ⟨regs, memory, .ofResult (regs.get dst), stack, label, rest, world, stores,
      overflow⟩ Q) :
    Runs p kernel ⟨regs, memory, flags, stack, label, .test dst :: rest, world, stores, overflow⟩ Q := .next run

theorem Runs.jmp (run : Runs p kernel (Machine.goto p ⟨regs, memory, flags, stack, label, rest, world, stores,
      overflow⟩ target) Q) :
    Runs p kernel ⟨regs, memory, flags, stack, label, .jmp target :: rest, world, stores,
      overflow⟩ Q := .next run

theorem Runs.taken (holds : cond.holds flags = true)
    (run : Runs p kernel (Machine.goto p ⟨regs, memory, flags, stack, label, rest, world, stores,
      overflow⟩ target) Q) :
    Runs p kernel ⟨regs, memory, flags, stack, label, .jcc cond target :: rest, world, stores, overflow⟩ Q := by
  refine .next ?_
  show Runs p kernel (if cond.holds flags then _ else _) Q
  rwa [if_pos holds]

theorem Runs.passed (fails : cond.holds flags = false)
    (run : Runs p kernel ⟨regs, memory, flags, stack, label, rest, world, stores, overflow⟩ Q) :
    Runs p kernel ⟨regs, memory, flags, stack, label, .jcc cond target :: rest, world, stores, overflow⟩ Q := by
  refine .next ?_
  show Runs p kernel (if cond.holds flags then _ else _) Q
  rwa [if_neg (Bool.eq_false_iff.mp fails)]

theorem Runs.call
    (run : Runs p kernel (Machine.goto p ⟨regs, memory, flags, .ret label rest :: stack, label, rest,
      world, stores, overflow⟩ target) Q) :
    Runs p kernel ⟨regs, memory, flags, stack, label, .call target :: rest, world, stores,
      overflow⟩ Q := .next run

theorem Runs.ret (run : Runs p kernel ⟨regs, memory, flags, stack, target, back, world, stores, overflow⟩ Q) :
    Runs p kernel ⟨regs, memory, flags, .ret target back :: stack, label, .ret :: rest, world, stores,
      overflow⟩ Q := .next run

theorem Runs.push
    (run : Runs p kernel ⟨regs, memory, flags, .word (regs.get src) :: stack, label, rest, world, stores,
      overflow⟩ Q) :
    Runs p kernel ⟨regs, memory, flags, stack, label, .push src :: rest, world, stores, overflow⟩ Q := .next run

theorem Runs.pop (run : Runs p kernel ⟨regs.set value dst, memory, flags, stack, label, rest, world, stores,
      overflow⟩ Q) :
    Runs p kernel ⟨regs, memory, flags, .word value :: stack, label, .pop dst :: rest, world, stores,
      overflow⟩ Q := .next run

theorem Runs.clc
    (run : Runs p kernel ⟨regs, memory, { flags with carry := false }, stack, label, rest, world, stores,
      overflow⟩ Q) :
    Runs p kernel ⟨regs, memory, flags, stack, label, .clc :: rest, world, stores, overflow⟩ Q := .next run

theorem Runs.stc
    (run : Runs p kernel ⟨regs, memory, { flags with carry := true }, stack, label, rest, world, stores,
      overflow⟩ Q) :
    Runs p kernel ⟨regs, memory, flags, stack, label, .stc :: rest, world, stores, overflow⟩ Q := .next run

theorem Runs.int (run : Runs p kernel ⟨regs.set (kernel regs memory world).eax .eax,
      storeAll memory (kernel regs memory world).stores, flags, stack, label, rest,
      (kernel regs memory world).world, (kernel regs memory world).stores.map Prod.fst ++ stores,
      overflow⟩ Q) :
    Runs p kernel ⟨regs, memory, flags, stack, label, .int :: rest, world, stores, overflow⟩ Q := .next run

theorem Runs.int_quiet (quiet : (kernel regs memory world).stores = [])
    (run : Runs p kernel ⟨regs.set (kernel regs memory world).eax .eax, memory, flags, stack, label, rest,
      (kernel regs memory world).world, stores, overflow⟩ Q) :
    Runs p kernel ⟨regs, memory, flags, stack, label, .int :: rest, world, stores, overflow⟩ Q := by
  refine .int ?_
  rw [quiet]
  exact run

theorem Runs.int_eq {answer : Answer ω} (answered : kernel regs memory world = answer)
    (run : Runs p kernel ⟨regs.set answer.eax .eax, storeAll memory answer.stores, flags, stack, label, rest,
      answer.world, answer.stores.map Prod.fst ++ stores, overflow⟩ Q) :
    Runs p kernel ⟨regs, memory, flags, stack, label, .int :: rest, world, stores, overflow⟩ Q := by
  subst answered
  exact .int run

theorem Runs.int_same (same : ∃ eax, kernel regs memory world = ⟨eax, [], world⟩)
    (run : ∀ eax, Runs p kernel ⟨regs.set eax .eax, memory, flags, stack, label, rest, world, stores,
      overflow⟩ Q) :
    Runs p kernel ⟨regs, memory, flags, stack, label, .int :: rest, world, stores, overflow⟩ Q := by
  obtain ⟨eax, answered⟩ := same
  exact .int_eq answered (run eax)

end Runs

end LaylaOS.Lib.Assembly
