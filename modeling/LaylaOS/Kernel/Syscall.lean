/-
**System calls** (`kernel/syscall.cpp`).

A call gets its number and arguments in registers. `World` is what it finds: the mounted volume,
the process table, user memory, the keyboard queue, and what happens while it waits. `Outcome` is
what it leaves: the result in `eax`, the disk, and the bytes it has stored through an address that
it was given in a register. Stores to fixed addresses (the shared network page, the program image of
`sys_exec`), screen output and changes of the process table are not part of it.
-/

import LaylaOS.Kernel.Scheduler
import LaylaOS.Fs.Fat32

namespace LaylaOS.Kernel

open LaylaOS.Fs

/-- The registers of a `SyscallFrame` that the handlers use. -/
structure Frame where
  eax : UInt32
  ebx : UInt32
  ecx : UInt32
  edx : UInt32

/-- What a system call finds. -/
structure World where
  /-- `global_fat32`. -/
  fat32 : Option Volume
  disk : Disk
  /-- `new uint8_t[65536]` does not return null. -/
  heap : Bool
  /-- What a new buffer holds. -/
  stale : Nat → UInt8
  /-- The string at an address, and the byte at an address. -/
  text : UInt32 → CString
  memory : UInt32 → UInt8
  scheduler : Scheduler
  /-- The keyboard queue, once a key has been typed; a queue that stays empty is `[]`. -/
  keys : { queue : List UInt8 // queue.length < 256 }
  /-- The exit code of a process that dies while it is waited for. -/
  deaths : Int → Option Int
  /-- There is an active terminal. -/
  terminal : Bool
  /-- What the network calls answer. -/
  network : Frame → UInt32

theorem no_keys : ([] : List UInt8).length < 256 := by decide

/-- What a system call leaves. -/
structure Outcome where
  eax : UInt32
  disk : Disk
  stores : List (UInt32 × UInt8)

/-! ### Pointer checks -/

/-- The check on path arguments: `addr >= 0x00400000 && addr < 0x00D00000`. -/
def userPointer (addr : UInt32) : Bool := 0x00400000 ≤ addr && addr < 0x00D00000

def netSharedBase : UInt32 := 0x00600000

/-- `IsRing3Range`; `addr + len` may wrap. -/
def isRing3Range (addr len : UInt32) : Bool :=
  if len = 0 then true
  else if addr + len < addr then false
  else if netSharedBase ≤ addr && addr + len ≤ netSharedBase + 4096 then true
  else 0x00400000 ≤ addr && addr + len ≤ 0x00D00000

/-- Bytes stored one after the other from an address on. -/
def storesAt (addr : UInt32) (bytes : List UInt8) : List (UInt32 × UInt8) :=
  bytes.zipIdx.map fun byte => (addr + UInt32.ofNat byte.2, byte.1)

namespace World

variable (w : World)

/-- A result without effects. -/
def returns (eax : UInt32) : Outcome := ⟨eax, w.disk, []⟩

/-- `(uint32_t)-1`. -/
def fails : Outcome := w.returns 0xFFFFFFFF

/-- `count` bytes of a new buffer into which `bytes` have been read. -/
def buffer (bytes : List UInt8) (count : Nat) : List UInt8 :=
  (List.range count).map fun k => bytes.getD k (w.stale k)

/-! ### Handlers -/

def sysWrite (fd buf n : UInt32) : Outcome :=
  if buf < 0x00400000 || buf + n > 0x00D00000 then w.fails
  else if fd = 1 || fd = 2 then w.returns n
  else w.fails

/-- What the copy loop of `sys_read` takes from the queue: `n` bytes at most, up to a newline. -/
def readLine : Nat → List UInt8 → List UInt8
  | 0, _ => []
  | _ + 1, [] => []
  | n + 1, c :: rest => if c = 10 then [c] else c :: readLine n rest

def sysRead (fd buf n : UInt32) : Option Outcome :=
  if fd ≠ 0 then some w.fails
  else if w.keys.val = [] then none
  else
    let line := readLine n.toNat w.keys.val
    some ⟨UInt32.ofNat line.length, w.disk, storesAt buf line⟩

def sysGetpid : Outcome :=
  match w.scheduler.getActive with
  | none => w.returns 0
  | some p => w.returns (UInt32.ofNat p.pid)

/-- The bytes of a 32-bit word, lowest first. -/
def wordBytes (word : UInt32) : List UInt8 :=
  [word.toUInt8, (word >>> 8).toUInt8, (word >>> 16).toUInt8, (word >>> 24).toUInt8]

/-- The exit code `sys_waitpid` sees once the process is dead; a process that never dies has none. -/
def awaited (target : Process) : Option Int :=
  if target.state = .dead then some target.exitCode else w.deaths (toInt32 target.pid)

def sysWaitpid (pid status : UInt32) : Option Outcome :=
  match w.scheduler.findProcess (toInt32 pid.toNat) with
  | none => some w.fails
  | some target => (w.awaited target).map fun exitCode =>
    ⟨pid, w.disk, if status = 0 then [] else storesAt status (wordBytes (UInt32.ofInt exitCode))⟩

/-- The file system calls with one path: no disk, then a bad pointer, both -1. -/
def withPath (path : UInt32) (call : Volume → CString → Option Outcome) : Option Outcome :=
  match w.fat32 with
  | none => some w.fails
  | some v => if userPointer path then call v (w.text path) else some w.fails

def sysOpen (path flags : UInt32) : Option Outcome :=
  w.withPath path fun v path =>
    if flags = 1 then (v.createFile w.disk path).map fun result => ⟨3, result.1, []⟩
    else some (w.returns 3)

/-- 0 for true, -1 for false, with the disk that the driver leaves. -/
def status (result : Disk × Bool) : Outcome := ⟨if result.2 then 0 else 0xFFFFFFFF, result.1, []⟩

def sysUnlink (path : UInt32) : Option Outcome :=
  w.withPath path fun v path => (v.deleteFile w.disk path).map status

def sysMkdir (path : UInt32) : Option Outcome :=
  w.withPath path fun v path => (v.makeDir w.disk path).map status

def sysLs (path : UInt32) : Option Outcome :=
  if !userPointer path then some (w.returns 1)
  else
    match w.fat32 with
    | none => some (w.returns 1)
    | some v => (v.listDirectory w.disk (w.text path)).map fun listed =>
      w.returns (if listed then 0 else 1)

def sysIsdir (path : UInt32) : Option Outcome :=
  match w.fat32 with
  | none => some (w.returns 0)
  | some v =>
    if !userPointer path then some (w.returns 0)
    else (v.isDirectory w.disk (w.text path)).map fun answer =>
      w.returns (if answer then 1 else 0)

/-- The common part of `sys_cp` and `sys_mv`: read `src`, write it to `dst`. Nothing is said about a
file whose clusters overrun the buffer of 65536 bytes, which damages the heap. -/
def copy (v : Volume) (src dst : CString) : Option (Disk × Bool) := do
  match ← v.readFile w.disk src with
  | none => return (w.disk, false)
  | some (size, bytes) =>
    if 65536 < bytes.length then none else v.writeFile w.disk dst (w.buffer bytes size)

/-- The checks of `sys_cp` and `sys_mv` in front of it. -/
def withPaths (src dst : UInt32) (call : Volume → CString → CString → Option Outcome) :
    Option Outcome :=
  match w.fat32 with
  | none => some w.fails
  | some v =>
    if userPointer src && userPointer dst && w.heap then call v (w.text src) (w.text dst)
    else some w.fails

def sysCp (src dst : UInt32) : Option Outcome :=
  w.withPaths src dst fun v src dst => (w.copy v src dst).map status

/-- `sys_mv`; the result of `DeleteFile` is not looked at. -/
def sysMv (src dst : UInt32) : Option Outcome :=
  w.withPaths src dst fun v src dst => do
    let (d, ok) ← w.copy v src dst
    if !ok then return ⟨0xFFFFFFFF, d, []⟩
    else
      let (d, _) ← v.deleteFile d src
      return ⟨0, d, []⟩

def sysWritefile (path data len : UInt32) : Option Outcome :=
  match w.fat32 with
  | none => some w.fails
  | some v =>
    if isRing3Range path 1 && isRing3Range data len then
      (v.writeFile w.disk (w.text path) ((List.range len.toNat).map fun k =>
        w.memory (data + UInt32.ofNat k))).map status
    else some w.fails

def sysReadfile (path out maxLen : UInt32) : Option Outcome :=
  match w.fat32 with
  | none => some w.fails
  | some v =>
    if maxLen ≤ 65536 && isRing3Range path 1 && isRing3Range out maxLen && w.heap then do
      match ← v.readFile w.disk (w.text path) with
      | none => return w.fails
      | some (size, bytes) =>
        let count := min size maxLen.toNat
        return ⟨UInt32.ofNat count, w.disk, storesAt out (w.buffer bytes count)⟩
    else some w.fails

def sysSetRawInput : Outcome := if w.terminal then w.returns 0 else w.fails

/-- `sys_exec`; the file goes to the fixed address 0x00400000. -/
def sysExec (path : UInt32) : Option Outcome :=
  if path = 0 then some w.fails
  else w.withPath path fun v path => (v.readFile w.disk path).map fun result =>
    match result with
    | none => w.fails
    | some _ => w.returns (UInt32.ofInt w.scheduler.nextPID)

end World

/-- **`SyscallDispatch`.** The exit and reboot calls do not return to their caller. -/
def dispatch (w : World) (frame : Frame) : Option Outcome :=
  match frame.eax.toNat with
  | 1 => none
  | 3 => w.sysRead frame.ebx frame.ecx frame.edx
  | 4 => some (w.sysWrite frame.ebx frame.ecx frame.edx)
  | 5 => w.sysOpen frame.ebx frame.ecx
  | 6 => w.sysUnlink frame.ebx
  | 7 => w.sysWaitpid frame.ebx frame.ecx
  | 11 => w.sysExec frame.ebx
  | 20 => some w.sysGetpid
  | 39 => w.sysMkdir frame.ebx
  | 40 => w.sysLs frame.ebx
  | 41 => w.sysIsdir frame.ebx
  | 50 | 51 | 52 | 53 | 54 | 55 => some (w.returns (w.network frame))
  | 88 => none
  | 90 => w.sysCp frame.ebx frame.ecx
  | 91 => w.sysMv frame.ebx frame.ecx
  | 92 => w.sysWritefile frame.ebx frame.ecx frame.edx
  | 93 => w.sysReadfile frame.ebx frame.ecx frame.edx
  | 94 => some w.sysSetRawInput
  | _ => some w.fails

end LaylaOS.Kernel
