/-
**The editor** (`do_nano` of `user/shell_program.s`).

`nano` reads at most 2047 bytes of a file into `nano_buf` and keeps their number in `nano_len`; a file that
cannot be read counts as empty. Keys change the end of the text, and Ctrl+S writes what the buffer holds over
the whole file. So a save keeps the file exactly if the whole text is in the buffer.

* `nano_saves_iff` — what Ctrl+S writes.
-/

import LaylaOS.Kernel.CopyMove
import LaylaOS.User.WorkingDirectory

namespace LaylaOS.User

open LaylaOS.Lib LaylaOS.Lib.Assembly LaylaOS.Fs LaylaOS.Kernel

/-! ### Texts -/

/-- What a key does to a text; `room` says whether another byte may be appended. -/
def typed (room : List UInt8 → Bool) (text : List UInt8) (key : UInt8) : List UInt8 :=
  if key = 8 ∨ key = 127 then text.dropLast
  else if (key = 13 ∨ key = 10 ∨ key = 9 ∨ 32 ≤ key) ∧ room text then text ++ [if key = 13 then 10 else key]
  else text

/-- `nano_buf` has room for another byte and the zero behind it. -/
def hasRoom (text : List UInt8) : Bool := text.length < 2047

theorem typed_cases (key : UInt8) : (∀ room text, typed room text key = text.dropLast) ∨
    (∃ c, ∀ room text, typed room text key = if room text then text ++ [c] else text) ∨
    ∀ room text, typed room text key = text := by
  by_cases back : key = 8 ∨ key = 127
  · exact .inl fun room text => if_pos back
  by_cases char : key = 13 ∨ key = 10 ∨ key = 9 ∨ 32 ≤ key
  · refine .inr (.inl ⟨if key = 13 then 10 else key, fun room text => ?_⟩)
    simp only [typed, if_neg back, char, true_and]
  · refine .inr (.inr fun room text => ?_)
    rw [typed, if_neg back, if_neg fun both => char both.1]

theorem length_typed_le {text : List UInt8} (room : text.length ≤ 2047) (key : UInt8) :
    (typed hasRoom text key).length ≤ 2047 := by
  obtain back | ⟨c, char⟩ | other := typed_cases key
  · rw [back, List.length_dropLast]
    omega
  · rw [char]
    split_ifs with more
    · have below : text.length < 2047 := by simpa [hasRoom] using more
      simpa using below
    · exact room
  · rw [other]
    exact room

theorem typed_save (room : List UInt8 → Bool) (text : List UInt8) : typed room text 19 = text := by
  rw [typed, if_neg (by decide), if_neg fun both => absurd both.1 (by decide)]

/-- A text edited by keys. -/
def edited (text keys : List UInt8) : List UInt8 := keys.foldl (typed fun _ => true) text

/-- A text in the buffer. -/
def buffered (text keys : List UInt8) : List UInt8 := keys.foldl (typed hasRoom) text

/-- What is in the buffer when the file has been read, or could not be. -/
def loaded (readable : Bool) (file : List UInt8) : List UInt8 := if readable then file.take 2047 else []

/-- Whether the whole text is in the buffer behind the keys: it is whenever the text is empty, and it is not
from when the text is too long. -/
def whole (before : Bool) (text : List UInt8) : List UInt8 → Bool
  | [] => before
  | key :: keys =>
    let text := typed (fun _ => true) text key
    whole (text = [] || before && text.length ≤ 2047) text keys

/-- The same for a file that has been opened. -/
def shown (readable : Bool) (file keys : List UInt8) : Bool :=
  whole (file = [] || readable && file.length ≤ 2047) file keys

/-- What is in the buffer, and how much more there is in the text. -/
structure Shows (whole : Bool) (buffer text : List UInt8) : Prop where
  room : buffer.length ≤ 2047
  same : whole = true → buffer = text
  fewer : whole = false → buffer.length < text.length

namespace Shows

variable {before : Bool} {buffer text : List UInt8}

theorem of_loaded (readable : Bool) (file : List UInt8) :
    Shows (file = [] || readable && file.length ≤ 2047) (loaded readable file) file := by
  cases readable with
  | false => cases file <;> constructor <;> simp [loaded]
  | true =>
    refine ⟨by simp [loaded], fun all => ?_, fun lost => ?_⟩
    · obtain rfl | short : file = [] ∨ file.length ≤ 2047 := by simpa using all
      · rfl
      · exact List.take_of_length_le short
    · have long : 2047 < file.length := by simpa using (Bool.or_eq_false_iff.mp lost).2
      simpa [loaded] using long

theorem of_eq (same : buffer = text) (room : text.length ≤ 2047) :
    Shows (text = [] || true && text.length ≤ 2047) buffer text :=
  ⟨same ▸ room, fun _ => same, fun lost => by simp [room] at lost⟩

theorem of_fewer (room : buffer.length ≤ 2047) (fewer : buffer.length < text.length)
    (lost : before = true → 2047 < text.length) :
    Shows (text = [] || before && text.length ≤ 2047) buffer text := by
  have some : text ≠ [] := List.length_pos_iff.mp (by omega)
  refine ⟨room, fun all => ?_, fun _ => fewer⟩
  obtain ⟨rfl, short⟩ : before = true ∧ text.length ≤ 2047 := by simpa [some] using all
  exact absurd short (Nat.not_le_of_lt (lost rfl))

theorem dropLast (shows : Shows before buffer text) :
    Shows (text.dropLast = [] || before && text.dropLast.length ≤ 2047) buffer.dropLast text.dropLast := by
  have room := shows.room
  cases before with
  | true =>
    obtain rfl := shows.same rfl
    refine of_eq rfl ?_
    rw [List.length_dropLast]
    omega
  | false =>
    have fewer := shows.fewer rfl
    by_cases last : text.length = 1
    · have empty : text.dropLast = [] := List.eq_nil_of_length_eq_zero (by rw [List.length_dropLast, last])
      obtain rfl : buffer = [] := List.eq_nil_of_length_eq_zero (by omega)
      rw [empty]
      exact ⟨by decide, fun _ => rfl, fun lost => by cases lost⟩
    · refine of_fewer ?_ ?_ (fun all => by cases all)
      · rw [List.length_dropLast]
        omega
      · rw [List.length_dropLast, List.length_dropLast]
        omega

theorem append (shows : Shows before buffer text) (c : UInt8) :
    Shows (text ++ [c] = [] || before && (text ++ [c]).length ≤ 2047)
      (if hasRoom buffer then buffer ++ [c] else buffer) (text ++ [c]) := by
  have room := shows.room
  cases more : hasRoom buffer with
  | true =>
    have below : buffer.length < 2047 := by simpa [hasRoom] using more
    rw [if_pos rfl]
    cases before with
    | true =>
      obtain rfl := shows.same rfl
      exact of_eq rfl (by simpa using below)
    | false => exact of_fewer (by simpa using below) (by simpa using shows.fewer rfl) fun all => by cases all
  | false =>
    have full : 2047 ≤ buffer.length := by simpa [hasRoom] using more
    rw [if_neg Bool.false_ne_true]
    cases before with
    | true =>
      obtain rfl := shows.same rfl
      exact of_fewer room (by simp) fun _ => by simpa using Nat.lt_succ_of_le full
    | false =>
      exact of_fewer room (by simpa using Nat.lt_succ_of_lt (shows.fewer rfl)) fun all => by cases all

theorem stay (shows : Shows before buffer text) :
    Shows (text = [] || before && text.length ≤ 2047) buffer text := by
  cases before with
  | true => exact of_eq (shows.same rfl) (shows.same rfl ▸ shows.room)
  | false => exact of_fewer shows.room (shows.fewer rfl) fun all => by cases all

theorem press (shows : Shows before buffer text) (key : UInt8) :
    Shows (typed (fun _ => true) text key = [] || before && (typed (fun _ => true) text key).length ≤ 2047)
      (typed hasRoom buffer key) (typed (fun _ => true) text key) := by
  obtain back | ⟨c, char⟩ | other := typed_cases key
  · rw [back, back]
    exact shows.dropLast
  · rw [char, char, if_pos rfl]
    exact shows.append c
  · rw [other, other]
    exact shows.stay

theorem pressAll (shows : Shows before buffer text) (keys : List UInt8) :
    Shows (whole before text keys) (buffered buffer keys) (edited text keys) := by
  induction keys generalizing before buffer text with
  | nil => exact shows
  | cons key keys ih => exact ih (shows.press key)

theorem eq_iff (shows : Shows before buffer text) : buffer = text ↔ before = true := by
  refine ⟨fun same => ?_, shows.same⟩
  by_contra lost
  have fewer := shows.fewer (Bool.eq_false_iff.mpr lost)
  rw [same] at fewer
  exact lt_irrefl _ fewer

end Shows

/-! ### System calls -/

/-- The state of the kernel, the keys that will be typed, and what `sys_writefile` has been asked to write to
which file, the last call first. -/
structure Desk where
  world : World
  keys : List UInt8
  saves : List (CString × List UInt8)

theorem zero_notMem_readText (memory : Memory) (n : Nat) (a : UInt32) : 0 ∉ readText memory n a := by
  induction n generalizing a with
  | zero => exact List.not_mem_nil
  | succ n ih =>
    rw [readText]
    split_ifs with zero
    · exact List.not_mem_nil
    · exact List.not_mem_cons_of_ne_of_not_mem (Ne.symm zero) (ih _)

/-- The C string at an address. -/
def textAt (memory : Memory) (a : UInt32) : CString :=
  ⟨readText memory (2 ^ 32) a, zero_notMem_readText memory (2 ^ 32) a⟩

theorem length_take_lt (keys : List UInt8) : (keys.take 255).length < 256 :=
  Nat.lt_succ_of_le (List.length_take_le ..)

/-- What a call finds. -/
def Desk.finds (desk : Desk) (memory : Memory) : World :=
  { desk.world with
    text := textAt memory
    memory := memory
    keys := ⟨desk.keys.take 255, length_take_lt desk.keys⟩ }

/-- What a call asks to write. -/
def asked (regs : Regs) (memory : Memory) : List (CString × List UInt8) :=
  if regs.eax = 92 then
    [(textAt memory regs.ebx, (List.range regs.edx.toNat).map fun k => memory (regs.ecx + UInt32.ofNat k))]
  else []

/-- **The system calls of the shell.** A call that does not return, as `sys_read` when no more keys will be
typed, is answered by nothing. -/
def syscalls : Kernel Desk := fun regs memory desk =>
  (dispatch (desk.finds memory) ⟨regs.eax, regs.ebx, regs.ecx, regs.edx⟩).elim
    ⟨0, [], { desk with saves := asked regs memory ++ desk.saves }⟩ fun outcome =>
      ⟨outcome.eax, outcome.stores,
        { world := { desk.world with disk := outcome.disk }
          keys := if regs.eax = 3 then desk.keys.drop outcome.stores.length else desk.keys
          saves := asked regs memory ++ desk.saves }⟩

/-- The `.bss` section lies in the window of the programs. -/
def Symbols.InWindow (s : Symbols) : Prop := 0x00400000 ≤ s.bss.toNat ∧ s.bss.toNat + 3341 ≤ 0x00D00000

instance (s : Symbols) : Decidable s.InWindow := inferInstanceAs (Decidable (_ ∧ _))

section Calls

variable {desk : Desk} {memory : Memory} {regs : Regs} {s : Symbols} {v : Volume} {path : CString}
  {esi edi : UInt32}

theorem syscalls_eq (regs : Regs) {outcome : Outcome}
    (answered : dispatch (desk.finds memory) ⟨regs.eax, regs.ebx, regs.ecx, regs.edx⟩ = some outcome) :
    syscalls regs memory desk = ⟨outcome.eax, outcome.stores, { desk.world with disk := outcome.disk },
      if regs.eax = 3 then desk.keys.drop outcome.stores.length else desk.keys,
      asked regs memory ++ desk.saves⟩ := by
  rw [syscalls, answered, Option.elim_some]

theorem syscalls_quiet (call : regs.eax = 4 ∨ regs.eax = 94) :
    ∃ eax, syscalls regs memory desk = ⟨eax, [], desk⟩ := by
  have printed : ∀ w fd a n, ∃ eax, World.sysWrite w fd a n = w.returns eax := by
    intro w fd a n
    unfold World.sysWrite
    split_ifs
    all_goals exact ⟨_, rfl⟩
  have switched : ∀ w, ∃ eax, World.sysSetRawInput w = w.returns eax := by
    intro w
    unfold World.sysSetRawInput
    split_ifs
    all_goals exact ⟨_, rfl⟩
  obtain ⟨eax, ebx, ecx, edx, esi, edi⟩ := regs
  obtain rfl | rfl := call
  · obtain ⟨eax, outcome⟩ := printed (desk.finds memory) ebx ecx edx
    exact ⟨eax, syscalls_eq ⟨4, ebx, ecx, edx, esi, edi⟩ (congrArg some outcome)⟩
  · obtain ⟨eax, outcome⟩ := switched (desk.finds memory)
    exact ⟨eax, syscalls_eq ⟨94, ebx, ecx, edx, esi, edi⟩ (congrArg some outcome)⟩

theorem syscalls_read {key : UInt8} {keys : List UInt8} (next : desk.keys = key :: keys) (a : UInt32) :
    syscalls ⟨3, 0, a, 1, esi, edi⟩ memory desk = ⟨1, [(a, key)], { desk with keys := keys }⟩ := by
  have queue : (desk.finds memory).keys.val = key :: keys.take 254 := by
    show desk.keys.take 255 = _
    rw [next, List.take_succ_cons]
  have line : World.readLine 1 (key :: keys.take 254) = [key] := by
    rw [World.readLine]
    split_ifs
    all_goals rfl
  have outcome : (desk.finds memory).sysRead 0 a 1 = some ⟨1, desk.world.disk, [(a, key)]⟩ := by
    have disk : (desk.finds memory).disk = desk.world.disk := rfl
    simp [World.sysRead, queue, line, storesAt, disk]
  rw [syscalls_eq ⟨3, 0, a, 1, esi, edi⟩ outcome, next]
  rfl

theorem textAt_of_cstr {a : UInt32} (named : Cstr memory a path.val) : textAt memory a = path :=
  Subtype.ext (readText_of_cstr named named.length_lt)

theorem isRing3Range_bss (placed : s.InWindow) {i : Nat} {len : UInt32} (inside : i + len.toNat ≤ 3341) :
    isRing3Range (s.bss + UInt32.ofNat i) len = true := by
  obtain ⟨low, high⟩ := placed
  have start : (s.bss + UInt32.ofNat i).toNat = s.bss.toNat + i := by
    exact toNat_add_ofNat (by omega)
  exact isRing3Range_of_window (by omega) (by omega)

theorem syscalls_readfile (desk : Desk) (placed : s.InWindow) (mounted : desk.world.fat32 = some v)
    (named : Cstr memory s.pathBuf1 path.val) {file : List UInt8}
    (reads : v.ReadsAs desk.world.disk path file) :
    syscalls ⟨93, s.pathBuf1, s.nanoBuf, 2047, esi, edi⟩ memory desk =
      if desk.world.heap then
        ⟨UInt32.ofNat (file.take 2047).length, storesAt s.nanoBuf (file.take 2047), desk⟩
      else ⟨0xFFFFFFFF, [], desk⟩ := by
  obtain ⟨bytes, read, same⟩ := reads.readFile
  have all : min file.length 2047 ≤ bytes.length := by
    have length := congrArg List.length same
    rw [List.length_take] at length
    omega
  have first : (desk.finds memory).buffer bytes (min file.length 2047) = file.take 2047 := by
    rw [World.buffer_eq _ all, Nat.min_comm, ← List.take_take, same]
  have outcome : (desk.finds memory).sysReadfile s.pathBuf1 s.nanoBuf 2047 =
      some (if desk.world.heap then ⟨UInt32.ofNat (file.take 2047).length, desk.world.disk,
        storesAt s.nanoBuf (file.take 2047)⟩ else (desk.finds memory).fails) := by
    have checked : (decide ((2047 : UInt32) ≤ 65536) && isRing3Range s.pathBuf1 1 &&
        isRing3Range s.nanoBuf 2047 && (desk.finds memory).heap) = desk.world.heap := by
      rw [show isRing3Range s.pathBuf1 1 = true from isRing3Range_bss placed (by decide),
        show isRing3Range s.nanoBuf 2047 = true from isRing3Range_bss placed (by decide)]
      rfl
    unfold World.sysReadfile
    rw [show (desk.finds memory).fat32 = some v from mounted]
    simp only [checked]
    split_ifs
    · rw [show (desk.finds memory).text s.pathBuf1 = path from textAt_of_cstr named,
        show (desk.finds memory).disk = desk.world.disk from rfl, read, List.length_take, Nat.min_comm, ← first]
      rfl
    · rfl
  rw [syscalls_eq ⟨93, s.pathBuf1, s.nanoBuf, 2047, esi, edi⟩ outcome]
  cases desk.world.heap <;> rfl

/-- **A save asks for the text to be written**, and stores nothing; if it is carried out, the result is 0. -/
theorem syscalls_writefile (desk : Desk) (placed : s.InWindow) (mounted : desk.world.fat32 = some v)
    (named : Cstr memory s.pathBuf1 path.val) {text : List UInt8} (held : Holds memory s.nanoBuf text)
    (room : text.length ≤ 2047) :
    ∃ eax world, syscalls ⟨92, s.pathBuf1, s.nanoBuf, UInt32.ofNat text.length, esi, edi⟩ memory desk =
        ⟨eax, [], world, desk.keys, (path, text) :: desk.saves⟩ ∧
      ∀ d', v.writeFile desk.world.disk path text = some (d', true) →
        eax = 0 ∧ world = { desk.world with disk := d' } := by
  have length : (UInt32.ofNat text.length).toNat = text.length :=
    UInt32.toNat_ofNat_of_lt' (lt_of_le_of_lt room (by decide))
  have saves : asked ⟨92, s.pathBuf1, s.nanoBuf, UInt32.ofNat text.length, esi, edi⟩ memory =
      [(path, text)] := by
    rw [asked, if_pos rfl, textAt_of_cstr named, length, held.read]
  have checked : (isRing3Range s.pathBuf1 1 && isRing3Range s.nanoBuf (UInt32.ofNat text.length)) = true := by
    rw [show isRing3Range s.pathBuf1 1 = true from isRing3Range_bss placed (by decide), Bool.true_and]
    exact isRing3Range_bss placed (by omega)
  have outcome : dispatch (desk.finds memory) ⟨92, s.pathBuf1, s.nanoBuf, UInt32.ofNat text.length⟩ =
      (v.writeFile desk.world.disk path text).map World.status := by
    show (desk.finds memory).sysWritefile s.pathBuf1 s.nanoBuf (UInt32.ofNat text.length) = _
    unfold World.sysWritefile
    rw [show (desk.finds memory).fat32 = some v from mounted]
    show (if _ then (v.writeFile desk.world.disk (textAt memory s.pathBuf1) ((List.range _).map fun k =>
      memory (s.nanoBuf + UInt32.ofNat k))).map World.status else _) = _
    rw [if_pos checked, textAt_of_cstr named, length, held.read]
  cases written : v.writeFile desk.world.disk path text with
  | none =>
    rw [written, Option.map_none] at outcome
    refine ⟨0, desk.world, ?_, fun d' same => by cases same⟩
    rw [syscalls, outcome, Option.elim_none, saves]
    rfl
  | some result =>
    rw [written, Option.map_some] at outcome
    refine ⟨(World.status result).eax, { desk.world with disk := result.1 }, ?_, ?_⟩
    · rw [syscalls_eq ⟨92, s.pathBuf1, s.nanoBuf, UInt32.ofNat text.length, esi, edi⟩ outcome, saves]
      rfl
    · rintro d' ⟨⟩
      exact ⟨rfl, rfl⟩

end Calls

/-! ### The memory of the editor -/

/-- What the editor stores to. -/
def buffers (s : Symbols) (x : UInt32) : Prop :=
  Within s.nanoBuf 2048 x ∨ Within s.nanoLen 4 x ∨ Within s.keyBuf 1 x

/-- **What the memory holds between two keys**, and what has been stored since it was `memory`. -/
structure Editing (s : Symbols) (memory : Memory) (stores : List UInt32) (text : List UInt8)
    (memory' : Memory) (stores' : List UInt32) : Prop extends
    Wrote (buffers s) memory stores memory' stores' where
  held : Holds memory' s.nanoBuf text
  length : wordAt memory' s.nanoLen = UInt32.ofNat text.length
  room : text.length ≤ 2047

section Memory

variable {s : Symbols} {memory memory' : Memory} {stores stores' : List UInt32} {text path : List UInt8}

/-- **The buffer with another text**: its length and a zero behind it are stored. -/
theorem Editing.close (wrote : Wrote (buffers s) memory stores memory' stores')
    (held : Holds memory' s.nanoBuf text) (room : text.length ≤ 2047) :
    Editing s memory stores text
      (Function.update (storeAll memory' (wordStores s.nanoLen (UInt32.ofNat text.length)))
        (s.nanoBuf + UInt32.ofNat text.length) 0)
      ((s.nanoBuf + UInt32.ofNat text.length) ::
        ((wordStores s.nanoLen (UInt32.ofNat text.length)).map Prod.fst ++ stores')) := by
  have length : Wrote (Within s.nanoLen 4) memory' stores'
      (storeAll memory' (wordStores s.nanoLen (UInt32.ofNat text.length))) _ :=
    (Wrote.refl _ memory' stores').storeAll fun store inside => within_wordStores inside
  refine ⟨?_, ?_, ?_, room⟩
  · refine (wrote.storeAll ?_).store (.inl (within_add (Nat.lt_succ_of_le room))) 0
    exact fun store inside => .inr (.inl (within_wordStores inside))
  · intro k c inside
    have bound := (List.getElem?_eq_some_iff.mp inside).1
    rw [Function.update_of_ne, length.kept, held k c inside]
    · exact not_within_of_apart (.inl (by omega)) (by decide) (by omega)
    · exact add_ofNat_ne (by omega) (by omega) (by omega)
  · refine (wordAt_congr fun k inside => ?_).trans (wordAt_wordStores memory' s.nanoLen _)
    exact Function.update_of_ne (add_ofNat_ne (by omega) (by omega) (by omega)) _ _

theorem Editing.key (editing : Editing s memory stores text memory' stores') (c : UInt8) :
    Editing s memory stores text (Function.update memory' s.keyBuf c) (s.keyBuf :: stores') := by
  have here : Within s.keyBuf 1 s.keyBuf := by simp [Within]
  have wrote := (Wrote.refl (Within s.keyBuf 1) memory' stores').store here c
  have room := editing.room
  refine ⟨editing.store (.inr (.inr here)) c, fun k d inside => ?_, ?_, room⟩
  · have bound := (List.getElem?_eq_some_iff.mp inside).1
    rw [wrote.kept, editing.held k d inside]
    exact not_within_of_apart (.inl (by omega)) (by decide) (by omega)
  · rw [← editing.length]
    refine wordAt_congr fun k inside => wrote.kept _ ?_
    exact not_within_of_apart (.inl (by omega)) (by decide) (by omega)

theorem Editing.named (editing : Editing s memory stores text memory' stores')
    (named : Cstr memory s.pathBuf1 path) (short : path.length ≤ 255) : Cstr memory' s.pathBuf1 path := by
  refine named.kept editing.toWrote fun k inside => ?_
  rintro (buffer | length | key)
  · exact not_within_of_apart (.inl (by omega)) (by decide) (by omega) buffer
  · exact not_within_of_apart (.inl (by omega)) (by decide) (by omega) length
  · exact not_within_of_apart (.inl (by omega)) (by decide) (by omega) key

theorem holds_storesAt (memory : Memory) (a : UInt32) {bytes : List UInt8} (fits : bytes.length ≤ 2 ^ 32) :
    Holds (storeAll memory (storesAt a bytes)) a bytes := by
  induction bytes using List.reverseRecOn with
  | nil => exact Holds.nil _ _
  | append_singleton bytes c ih =>
    rw [List.length_append, List.length_singleton] at fits
    have last : storeAll memory (storesAt a (bytes ++ [c])) =
        Function.update (storeAll memory (storesAt a bytes)) (a + UInt32.ofNat bytes.length) c := by
      simp [storesAt, storeAll, List.zipIdx_append]
    rw [last]
    exact (ih (by omega)).concat fits c

end Memory

/-! ### Keys -/

section Keys

variable {s : Symbols} {m : Machine Label Desk} {memory : Memory} {stores : List UInt32}
  {text keys : List UInt8} {key : UInt8} {Q : Machine Label Desk → Prop}

theorem doNanoAppend_runs (editing : Editing s memory stores text m.memory m.stores)
    (here : m.memory s.keyBuf = key)
    (run : ∀ m' : Machine Label Desk, m'.world = m.world →
      Editing s memory stores (if hasRoom text then text ++ [key] else text) m'.memory m'.stores →
      Runs (shell s) syscalls (m'.goto (shell s) .doNanoLoop) Q) :
    Runs (shell s) syscalls (m.goto (shell s) .doNanoAppend) Q := by
  have room := editing.room
  have full : hasRoom text = decide (UInt32.ofNat text.length < 2047) := by
    rw [hasRoom, decide_eq_decide]
    exact (ofNat_lt_iff (by omega) (by decide)).symm
  refine .enter <| .load <| .cmp ?_
  by_cases more : hasRoom text
  · have below : text.length < 2047 := by simpa [hasRoom] using more
    have room' : (text ++ [key]).length ≤ 2047 := by simpa using below
    have closed := Editing.close (editing.store (.inl (within_add (Nat.lt_succ_of_lt below))) key)
      (editing.held.concat (lt_trans below (by decide)) key) room'
    rw [if_pos more] at run
    refine .passed ?_ <| .movb <| .storeb <| .inc <| .store <| .storebImm <| .movImm <| .movImm <| .movImm <|
      .movImm <| .int_same (syscalls_quiet (.inl rfl)) fun _ => .jmp <| run _ rfl ?_
    · simpa [editing.length, ← full] using more
    · simpa [editing.length, here] using closed
  · rw [if_neg more] at run
    refine .taken ?_ <| run _ rfl editing
    simpa [editing.length, ← full] using more

theorem doNanoKeepChar_runs {c : UInt8} (editing : Editing s memory stores text m.memory m.stores)
    (here : m.memory s.keyBuf = c)
    (run : ∀ m' : Machine Label Desk, m'.world = m.world → Editing s memory stores
        (if (c = 10 ∨ c = 9 ∨ 32 ≤ c) ∧ hasRoom text then text ++ [c] else text) m'.memory m'.stores →
      Runs (shell s) syscalls (m'.goto (shell s) .doNanoLoop) Q) :
    Runs (shell s) syscalls (m.goto (shell s) .doNanoKeepChar) Q := by
  refine .enter <| .movzbl <| .cmpb ?_
  by_cases newline : c = 10
  · refine .taken (by simpa [here] using newline) <| doNanoAppend_runs editing here ?_
    simpa only [newline, true_or, true_and] using run
  refine .passed (by simpa [here] using newline) <| .cmpb ?_
  by_cases tab : c = 9
  · refine .taken (by simpa [here] using tab) <| doNanoAppend_runs editing here ?_
    simpa only [tab, true_or, or_true, true_and] using run
  refine .passed (by simpa [here] using tab) <| .cmpb ?_
  by_cases control : c < 32
  · refine .taken (by simpa [here] using control) <| run _ rfl ?_
    rw [if_neg]
    · exact editing
    · rintro ⟨same | same | above, -⟩
      · exact newline same
      · exact tab same
      · exact UInt8.not_lt.mpr above control
  · refine .passed (by simpa [here] using control) <| .fall <| doNanoAppend_runs editing here ?_
    simpa only [UInt8.not_lt.mp control, or_true, true_and] using run

theorem doNanoBackspace_runs (editing : Editing s memory stores text m.memory m.stores)
    (run : ∀ m' : Machine Label Desk, m'.world = m.world →
      Editing s memory stores text.dropLast m'.memory m'.stores →
      Runs (shell s) syscalls (m'.goto (shell s) .doNanoLoop) Q) :
    Runs (shell s) syscalls (m.goto (shell s) .doNanoBackspace) Q := by
  refine .enter <| .load <| .test ?_
  obtain rfl | ⟨before, c, rfl⟩ := List.eq_nil_or_concat' text
  · refine .taken ?_ <| run _ rfl editing
    simp [editing.length]
  · have room := editing.room
    rw [List.length_append, List.length_singleton] at room
    have some : UInt32.ofNat (before ++ [c]).length ≠ 0 :=
      mt (ofNat_inj (by simp; omega) (by decide)).mp (by simp)
    have shorter : UInt32.ofNat (before ++ [c]).length - 1 = UInt32.ofNat before.length := by
      rw [List.length_append, List.length_singleton, ofNat_succ_sub_one]
    have closed := (Editing.close editing.toWrote editing.held.left (by omega)).key 8
    rw [List.dropLast_concat] at run
    refine .passed ?_ <| .dec <| .store <| .storebImm <| .storebImm <| .movImm <| .movImm <| .movImm <|
      .movImm <| .int_same (syscalls_quiet (.inl rfl)) fun _ => .jmp <| run _ rfl ?_
    · simpa [editing.length] using some
    · simpa [editing.length, shorter] using closed

theorem doNanoLoop_key (editing : Editing s memory stores text m.memory m.stores)
    (next : m.world.keys = key :: keys)
    (run : ∀ regs flags memory' stores' overflow, low regs.eax = key → memory' s.keyBuf = key →
      Editing s memory stores text memory' stores' →
      Runs (shell s) syscalls ⟨regs, memory', flags, m.stack, .doNanoLoop,
        [.cmpb 24 .eax, .jcc .e .doNanoExit, .cmpb 19 .eax, .jcc .e .doNanoSave, .cmpb 8 .eax,
          .jcc .e .doNanoBackspace, .cmpb 127 .eax, .jcc .e .doNanoBackspace, .cmpb 13 .eax,
          .jcc .ne .doNanoKeepChar, .storebImm 10 (.abs s.keyBuf)], { m.world with keys := keys },
        stores', overflow⟩ Q) :
    Runs (shell s) syscalls (m.goto (shell s) .doNanoLoop) Q := by
  have answered : syscalls ((((m.regs.set 3 .eax).set 0 .ebx).set s.keyBuf .ecx).set 1 .edx) m.memory m.world =
      ⟨1, [(s.keyBuf, key)], { m.world with keys := keys }⟩ := syscalls_read next s.keyBuf
  refine .enter <| .movImm <| .movImm <| .movImm <| .movImm <| .int_eq answered <| .cmp <| .passed (by simp) <|
    .movzbl ?_
  refine run _ _ _ _ _ ?_ ?_ ?_
  · simp [storeAll]
  · simp [storeAll]
  · simpa [storeAll] using editing.key key

theorem doNanoLoop_typed (editing : Editing s memory stores text m.memory m.stores)
    (next : m.world.keys = key :: keys) (noExit : key ≠ 24) (noSave : key ≠ 19)
    (run : ∀ m' : Machine Label Desk, m'.world = { m.world with keys := keys } →
      Editing s memory stores (typed hasRoom text key) m'.memory m'.stores →
      Runs (shell s) syscalls (m'.goto (shell s) .doNanoLoop) Q) :
    Runs (shell s) syscalls (m.goto (shell s) .doNanoLoop) Q := by
  refine doNanoLoop_key editing next fun regs flags memory' stores' overflow eax here editing => ?_
  refine .cmpb <| .passed (by simpa [eax] using noExit) <| .cmpb <| .passed (by simpa [eax] using noSave) <|
    .cmpb ?_
  by_cases backspace : key = 8
  · refine .taken (by simpa [eax] using backspace) <| doNanoBackspace_runs editing ?_
    rwa [typed, if_pos (.inl backspace)] at run
  refine .passed (by simpa [eax] using backspace) <| .cmpb ?_
  by_cases delete : key = 127
  · refine .taken (by simpa [eax] using delete) <| doNanoBackspace_runs editing ?_
    rwa [typed, if_pos (.inr delete)] at run
  rw [typed, if_neg (not_or.mpr ⟨backspace, delete⟩)] at run
  refine .passed (by simpa [eax] using delete) <| .cmpb ?_
  by_cases enter : key = 13
  · have stored : Editing s memory stores text
        (Function.update memory' (Operand.address regs (.abs s.keyBuf)) 10)
        (Operand.address regs (.abs s.keyBuf) :: stores') := editing.key 10
    refine .passed (by simpa [eax] using enter) <| .storebImm <| .fall <|
      doNanoKeepChar_runs (c := 10) stored ?_ ?_
    · simp
    · simpa only [enter, true_or, true_and, if_true] using run
  · refine .taken (by simpa [eax] using enter) <| doNanoKeepChar_runs editing here ?_
    simpa only [enter, false_or, if_false] using run

theorem doNanoLoop_save (editing : Editing s memory stores text m.memory m.stores)
    (next : m.world.keys = 19 :: keys)
    (run : ∀ esi edi memory' flags stores' overflow, Editing s memory stores text memory' stores' →
      Runs (shell s) syscalls ⟨⟨92, s.pathBuf1, s.nanoBuf, UInt32.ofNat text.length, esi, edi⟩, memory', flags,
        m.stack, .doNanoSave, [.int, .cmp 0 .eax, .jcc .ne .doNanoFail, .jmp .doNanoLoop],
        { m.world with keys := keys }, stores', overflow⟩ Q) :
    Runs (shell s) syscalls (m.goto (shell s) .doNanoLoop) Q := by
  refine doNanoLoop_key editing next fun regs flags memory' stores' overflow eax here editing => ?_
  refine .cmpb <| .passed ?_ <| .cmpb <| .taken ?_ <| .enter <| .load <| .movImm <| .movImm <| .movImm ?_
  · simp [eax]
  · simp [eax]
  · have ready := run regs.esi regs.edi memory' (.ofSubByte (low regs.eax) 19) stores' overflow editing
    rw [← editing.length] at ready
    exact ready

theorem doNanoLoop_exit (editing : Editing s memory stores text m.memory m.stores)
    (next : m.world.keys = 24 :: keys)
    (run : ∀ m' : Machine Label Desk, m'.world = { m.world with keys := keys } →
      Runs (shell s) syscalls (m'.goto (shell s) .promptLoop) Q) :
    Runs (shell s) syscalls (m.goto (shell s) .doNanoLoop) Q := by
  refine doNanoLoop_key editing next fun regs flags memory' stores' overflow eax here editing => ?_
  refine .cmpb <| .taken ?_ <| .enter <| .movImm <| .xor_self <|
    .int_same (syscalls_quiet (.inr rfl)) fun _ => .jmp <| run _ rfl
  simp [eax]

end Keys

/-- The keys do not leave the editor; the saves among them are carried out and leave the second disk. -/
inductive Pressed (v : Volume) (path : CString) : Disk → List UInt8 → List UInt8 → Disk → Prop
  | nil (d : Disk) (text : List UInt8) : Pressed v path d text [] d
  | save {d d' d'' : Disk} {text keys : List UInt8} (written : v.writeFile d path text = some (d', true))
      (rest : Pressed v path d' text keys d'') : Pressed v path d text (19 :: keys) d''
  | edit {d d' : Disk} {text keys : List UInt8} {key : UInt8} (noExit : key ≠ 24) (noSave : key ≠ 19)
      (rest : Pressed v path d (typed hasRoom text key) keys d') : Pressed v path d text (key :: keys) d'

/-- The editor waits for a key. -/
structure Waits (s : Symbols) (memory : Memory) (stores : List UInt32) (text : List UInt8) (world : World)
    (keys : List UInt8) (m : Machine Label Desk) : Prop where
  label : m.label = .doNanoLoop
  rest : m.rest = block s .doNanoLoop
  world : m.world.world = world
  keys : m.world.keys = keys
  editing : Editing s memory stores text m.memory m.stores

section Loop

variable {s : Symbols} {m : Machine Label Desk} {memory : Memory} {stores : List UInt32} {v : Volume}
  {path : CString} {text keys rest : List UInt8} {d d' : Disk} {world : World} {Q : Machine Label Desk → Prop}

theorem doNanoLoop_runs (placed : s.InWindow) (named : Cstr memory s.pathBuf1 path.val)
    (short : path.val.length ≤ 255) (mounted : world.fat32 = some v) (pressed : Pressed v path d text keys d')
    (here : m.world.world = { world with disk := d }) (next : m.world.keys = keys ++ rest)
    (editing : Editing s memory stores text m.memory m.stores) :
    Runs (shell s) syscalls (m.goto (shell s) .doNanoLoop)
      (Waits s memory stores (buffered text keys) { world with disk := d' } rest) := by
  induction pressed generalizing m with
  | nil d text => exact .now ⟨rfl, rfl, here, next, editing⟩
  | @save d d₁ d' text keys written pressed ih =>
    have saved : buffered text (19 :: keys) = buffered text keys := by
      rw [buffered, List.foldl_cons, typed_save, buffered]
    rw [saved]
    refine doNanoLoop_save editing next fun esi edi memory' flags stores' overflow editing => ?_
    have volume : m.world.world.fat32 = some v := by rw [here, mounted]
    have disk : m.world.world.disk = d := by rw [here]
    rw [← disk] at written
    obtain ⟨eax, world', answered, done⟩ := syscalls_writefile { m.world with keys := keys ++ rest } placed
      volume (editing.named named short) editing.held editing.room
    obtain ⟨rfl, rfl⟩ := done d₁ written
    refine .int_eq answered <| .cmp <| .passed (by simp) <| .jmp <| ih ?_ rfl editing
    simp [here]
  | @edit d d' text keys key noExit noSave pressed ih =>
    refine doNanoLoop_typed editing next noExit noSave fun m' same editing => ?_
    refine ih ?_ ?_ editing
    · rw [same, here]
    · rw [same]
      rfl

/-- **Ctrl+S and Ctrl+X**: back at the prompt, the text is the last one that was to be written, and if it was,
the disk is the one with it. -/
theorem doNanoLoop_leaves (placed : s.InWindow) (named : Cstr memory s.pathBuf1 path.val)
    (short : path.val.length ≤ 255) (mounted : m.world.world.fat32 = some v)
    (next : m.world.keys = 19 :: 24 :: rest) (editing : Editing s memory stores text m.memory m.stores) :
    Runs (shell s) syscalls (m.goto (shell s) .doNanoLoop) fun m' =>
      (m'.label = .promptLoop ∧ m'.rest = []) ∧ m'.world.saves.head? = some (path, text) ∧
        ∀ d', v.writeFile m.world.world.disk path text = some (d', true) → m'.world.world.disk = d' := by
  refine doNanoLoop_save editing next fun esi edi memory' flags stores' overflow editing => ?_
  obtain ⟨eax, world, answered, done⟩ := syscalls_writefile { m.world with keys := 24 :: rest } placed mounted
    (editing.named named short) editing.held editing.room
  refine .int_eq answered <| .cmp ?_
  by_cases zero : eax = 0
  · refine .passed (by simpa using zero) <| .jmp <| doNanoLoop_exit editing rfl fun m' same => ?_
    refine .now ⟨⟨rfl, rfl⟩, congrArg (fun desk => desk.saves.head?) same, fun d' written => ?_⟩
    exact (congrArg (fun desk => desk.world.disk) same).trans (congrArg World.disk (done d' written).2)
  · refine .taken (by simpa using zero) <| .enter <| .movImm <| .xor_self <|
      .int_same (syscalls_quiet (.inr rfl)) fun _ => .movImm <| .movImm <| .movImm <| .movImm <|
      .int_same (syscalls_quiet (.inl rfl)) fun _ => .jmp <| .now ⟨⟨rfl, rfl⟩, rfl, ?_⟩
    exact fun d' written => absurd (done d' written).1 zero

theorem doNanoPaint_runs (named : Cstr m.memory s.pathBuf1 path.val)
    (run : ∀ m' : Machine Label Desk, m'.world = m.world → m'.memory = m.memory → m'.stores = m.stores →
      Runs (shell s) syscalls (m'.goto (shell s) .doNanoLoop) Q) :
    Runs (shell s) syscalls (m.goto (shell s) .doNanoPaint) Q := by
  have raw : ∀ m' : Machine Label Desk, m'.world = m.world → m'.memory = m.memory → m'.stores = m.stores →
      Runs (shell s) syscalls (m'.goto (shell s) .doNanoEnterRaw) Q := by
    intro m' world memory stores
    exact .enter <| .movImm <| .movImm <| .int_same (syscalls_quiet (.inr rfl)) fun _ => .fall <|
      run _ world memory stores
  refine .enter <| .movImm <| .movImm <| .movImm <| .movImm <| .int_same (syscalls_quiet (.inl rfl)) fun _ =>
    .movImm <| .movImm <| .movImm <| .movImm <| .int_same (syscalls_quiet (.inl rfl)) fun _ =>
    .movImm <| .call <| cstrlen_runs named rfl fun regs flags overflow _ _ =>
    .movImm <| .movImm <| .movImm <| .int_same (syscalls_quiet (.inl rfl)) fun _ =>
    .movImm <| .movImm <| .movImm <| .movImm <| .int_same (syscalls_quiet (.inl rfl)) fun _ =>
    .movImm <| .movImm <| .movImm <| .movImm <| .int_same (syscalls_quiet (.inl rfl)) fun _ =>
    .load <| .test ?_
  by_cases empty : wordAt m.memory s.nanoLen = 0
  · exact .taken (by simpa using empty) <| raw _ rfl rfl rfl
  · exact .passed (by simpa using empty) <| .movImm <| .movImm <| .movImm <|
      .int_same (syscalls_quiet (.inl rfl)) fun _ => .fall <| raw _ rfl rfl rfl

end Loop

/-! ### Opening a file -/

/-- The command begins. -/
def enterNano (s : Symbols) (m : Machine Label Desk) (line : Line) : Machine Label Desk :=
  Machine.goto (shell s) { m with memory := line.into s m.memory } .doNano

/-- The path that the command opens. -/
def opened (cwd : List UInt8) (line : Line) : List UInt8 :=
  stripped ((joined cwd (argument (line.rest 4))).take 255)

theorem length_opened_le (cwd : List UInt8) (line : Line) : (opened cwd line).length ≤ 255 :=
  le_trans (length_stripped_le _) (List.length_take_le ..)

/-- What the command stores to. -/
def touched (s : Symbols) (x : UInt32) : Prop := Within s.argBuf 256 x ∨ Within s.pathBuf1 256 x ∨ buffers s x

section Opening

variable {s : Symbols} {m : Machine Label Desk} {v : Volume} {path : CString} {file cwd : List UInt8}
  {line : Line} {Q : Machine Label Desk → Prop}

theorem doNano_reads {memory : Memory} {desk : Desk} (placed : s.InWindow)
    (mounted : desk.world.fat32 = some v) (named : Cstr memory s.pathBuf1 path.val)
    (reads : v.ReadsAs desk.world.disk path file) {esi edi : UInt32} {flags : Flags}
    {stack : List (Slot Label)} {stores : List UInt32} {overflow : Bool}
    (run : ∀ m' : Machine Label Desk, m'.world = desk →
      Editing s memory stores (loaded desk.world.heap file) m'.memory m'.stores →
      Runs (shell s) syscalls (m'.goto (shell s) .doNanoPaint) Q) :
    Runs (shell s) syscalls ⟨⟨93, s.pathBuf1, s.nanoBuf, 2047, esi, edi⟩, memory, flags, stack, .doNano,
      [.int, .test .eax, .jcc .l .doNanoEmpty, .store .eax (.abs s.nanoLen), .mov .eax .ecx,
        .storebImm 0 (.off s.nanoBuf .ecx), .jmp .doNanoPaint], desk, stores, overflow⟩ Q := by
  have answered : syscalls ⟨93, s.pathBuf1, s.nanoBuf, 2047, esi, edi⟩ memory desk = _ :=
    syscalls_readfile desk placed mounted named reads
  cases heap : desk.world.heap with
  | false =>
    rw [heap, if_neg Bool.false_ne_true] at answered
    have closed := Editing.close (Wrote.refl (buffers s) memory stores) (Holds.nil memory s.nanoBuf) (by decide)
    refine .int_eq answered <| .test <| .taken ?_ <| .enter <| .storeImm <| .storebImm <| .fall <| run _ rfl ?_
    · show Cond.holds (.ofResult 0xFFFFFFFF) .l = true
      decide
    · simpa [loaded, heap] using closed
  | true =>
    rw [heap, if_pos rfl] at answered
    have room : (file.take 2047).length ≤ 2047 := List.length_take_le ..
    have inside : ∀ store ∈ storesAt s.nanoBuf (file.take 2047), buffers s store.1 := by
      rintro ⟨place, byte⟩ member
      obtain ⟨k, bound, rfl⟩ := mem_storesAt.mp ⟨byte, member⟩
      exact .inl (within_add (by omega))
    have closed := Editing.close ((Wrote.refl (buffers s) memory stores).storeAll inside)
      (holds_storesAt memory s.nanoBuf (by omega)) room
    refine .int_eq answered <| .test <| .passed ?_ <| .store <| .mov <| .storebImm <| .jmp <| run _ rfl ?_
    · show decide ((UInt32.ofNat (file.take 2047).length).toInt32 < 0) = false
      rw [decide_eq_false_iff_not, UInt32.toInt32_ofNat', Int32.lt_iff_toInt_lt,
        Int32.toInt_ofNat_of_lt (by omega)]
      exact not_lt_of_ge (Int.natCast_nonneg _)
    · simpa [loaded, heap] using closed

theorem doNano_runs (placed : s.InWindow) (start : AtPrompt s cwd m) (given : argument (line.rest 4) ≠ [])
    (absolute : path.val = opened cwd line) (mounted : m.world.world.fat32 = some v)
    (reads : v.ReadsAs m.world.world.disk path file)
    (run : ∀ memory stores, Wrote (touched s) (line.into s m.memory) m.stores memory stores →
      Cstr memory s.pathBuf1 path.val → ∀ m' : Machine Label Desk, m'.world = m.world →
      Editing s memory stores (loaded m.world.world.heap file) m'.memory m'.stores →
      Runs (shell s) syscalls (m'.goto (shell s) .doNanoLoop) Q) :
    Runs (shell s) syscalls (enterNano s m line) Q := by
  have rest_le := line.rest_length_le 4
  have arg_le := length_argument_le (line.rest 4)
  have short := start.short
  have short' : path.val.length ≤ 255 := absolute ▸ length_opened_le cwd line
  refine .enter <| .movImm <| .movImm <| .call <| extractArg_runs (line.lineAt 4 (by decide) start.ended)
    (by omega) (fun _ inside => line.rest_apart 4 (by decide) inside) rfl rfl rfl
    (fun none => absurd none given) ?_
  intro given regs memory' flags stores' overflow carry wrote found
  have ready := (start.ready line).kept wrote (by decide) (by decide)
  refine .passed carry <| .movImm <| .movImm <| .call <| makeAbsPath_runs found ready.there short ?_ ?_
    rfl rfl rfl ?_
  · intro k inside
    exact not_within_of_apart (.inl (by omega)) (by decide) (by omega)
  · intro k inside
    exact not_within_of_apart (.inr (by omega)) (by decide) (by omega)
  intro regs memory flags stores overflow wrote' made
  have named : Cstr memory s.pathBuf1 path.val := absolute ▸ made
  refine .movImm <| .movImm <| .movImm <| .movImm <| doNano_reads placed mounted named reads ?_
  intro m' world editing
  refine doNanoPaint_runs (editing.named named short') ?_
  intro m'' world' memory' stores'
  refine run memory stores ?_ named m'' (world'.trans world) ?_
  · exact (wrote.mono fun _ inside => .inl inside).trans (wrote'.mono fun _ inside => .inr (.inl inside))
  · rw [memory', stores']
    exact editing

end Opening

/-! ### The file -/

/-- The volume is in order, and the path leads to a file with these bytes. -/
def Stands (v : Volume) (d : Disk) (path : CString) (bytes : List UInt8) : Prop :=
  ∃ I : Image, v.Represents d I ∧ I.Sound ∧ I.UniqueNames ∧ I.Holds (pathComponents path) bytes

section Files

variable {v : Volume} {d d' : Disk} {path : CString} {file bytes text keys : List UInt8}

theorem Stands.readsAs (stands : Stands v d path file) (geometry : v.Geometry) : v.ReadsAs d path file := by
  obtain ⟨I, represents, sound, -, holds⟩ := stands
  exact Volume.readsAs_of_holds geometry represents sound holds

theorem stands_of_readsAs (wf : v.WellFormed d) (reads : v.ReadsAs d path file) : Stands v d path file := by
  obtain ⟨bytes, read, same⟩ := reads.readFile
  refine ⟨_, wf.represents, wf.regular.sound, wf.regular.unique, ?_⟩
  rw [← same]
  exact (wf.holds_of_read read).2

theorem Stands.write (stands : Stands v d path file) (geometry : v.Geometry)
    (noEmpty : ¬ [47, 47] <:+: path.val) (word : bytes.length < 2 ^ 32)
    (written : v.writeFile d path bytes = some (d', true)) : Stands v d' path bytes := by
  obtain ⟨I, represents, sound, unique, holds⟩ := stands
  obtain ⟨d₁, I', b, ran, represents', write⟩ := Volume.writeFile_spec geometry represents sound path word
  rw [ran] at written
  cases written
  rw [components_eq noEmpty] at write
  have terminated := pathComponents_terminated path
  obtain ⟨D, name83, place, touches, stored, -⟩ := write.touches sound unique terminated word
  refine ⟨I', represents', touches.sound, touches.unique, stored (holds.live place) _ ?_⟩
  rw [touches.places _ terminated, place]

theorem Pressed.stands (pressed : Pressed v path d text keys d') (geometry : v.Geometry)
    (noEmpty : ¬ [47, 47] <:+: path.val) (room : text.length ≤ 2047) (stands : Stands v d path file) :
    ∃ bytes, Stands v d' path bytes := by
  induction pressed generalizing file with
  | nil d text => exact ⟨file, stands⟩
  | save written rest ih =>
    exact ih room (stands.write geometry noEmpty (lt_of_le_of_lt room (by decide)) written)
  | edit noExit noSave rest ih => exact ih (length_typed_le room _) stands

end Files

/-! ### Sessions -/

/-- The command comes back to the prompt, with `P` there. -/
def ComesBack (s : Symbols) (m : Machine Label Desk) (line : Line) (P : Desk → Prop) : Prop :=
  Runs (shell s) syscalls (enterNano s m line) fun m' => (m'.label = .promptLoop ∧ m'.rest = []) ∧ P m'.world

theorem comesBack_iff {s : Symbols} {m : Machine Label Desk} {line : Line} {P F : Desk → Prop} {c : Prop}
    (known : ComesBack s m line F) (decided : ∀ desk, F desk → (P desk ↔ c)) :
    ComesBack s m line P ↔ c := by
  constructor
  · intro back
    obtain ⟨n, ⟨-, facts⟩, -, holds⟩ := known.and_of_stays back
      (fun m' there => prompt_stays syscalls there.1.1 there.1.2)
      (fun m' there => prompt_stays syscalls there.1.1 there.1.2)
    exact (decided _ facts).mp holds
  · intro holds
    exact known.mono fun m' there => ⟨there.1, (decided _ there.2).mpr holds⟩

section Sessions

variable {s : Symbols} {m : Machine Label Desk} {cwd : List UInt8} {line : Line} {path : CString} {v : Volume}
  {file keys rest : List UInt8} {d' : Disk} (placed : s.InWindow) (start : AtPrompt s cwd m)
  (given : argument (line.rest 4) ≠ []) (absolute : path.val = opened cwd line)
  (mounted : m.world.world.fat32 = some v) (reads : v.ReadsAs m.world.world.disk path file)
  (pressed : Pressed v path m.world.world.disk (loaded m.world.world.heap file) keys d')
include placed start given absolute mounted reads pressed

theorem enterNano_waits (next : m.world.keys = keys ++ rest) :
    Runs (shell s) syscalls (enterNano s m line) fun m' => ∃ memory stores,
      Wrote (touched s) (line.into s m.memory) m.stores memory stores ∧ Cstr memory s.pathBuf1 path.val ∧
      Waits s memory stores (buffered (loaded m.world.world.heap file) keys)
        { m.world.world with disk := d' } rest m' := by
  refine doNano_runs placed start given absolute mounted reads ?_
  intro memory stores wrote named m' same editing
  have short : path.val.length ≤ 255 := absolute ▸ length_opened_le cwd line
  have next' : m'.world.keys = keys ++ rest := by rw [same, next]
  have waits := doNanoLoop_runs placed named short mounted pressed (by rw [same]) next' editing
  exact waits.mono fun m'' waits => ⟨memory, stores, wrote, named, waits⟩

theorem enterNano_leaves (next : m.world.keys = keys ++ 19 :: 24 :: rest) : ComesBack s m line fun desk =>
      desk.saves.head? = some (path, buffered (loaded m.world.world.heap file) keys) ∧
      ∀ d'', v.writeFile d' path (buffered (loaded m.world.world.heap file) keys) = some (d'', true) →
        desk.world.disk = d'' := by
  refine (enterNano_waits placed start given absolute mounted reads pressed next).trans ?_
  rintro m' ⟨memory, stores, -, named, waits⟩
  have short : path.val.length ≤ 255 := absolute ▸ length_opened_le cwd line
  have volume : m'.world.world.fat32 = some v := by rw [waits.world, mounted]
  have left := doNanoLoop_leaves placed named short volume waits.keys waits.editing
  have here : m'.goto (shell s) .doNanoLoop = m' := by
    obtain ⟨regs, memory', flags, stack, label, code, world, stores', overflow⟩ := m'
    obtain rfl : label = .doNanoLoop := waits.label
    obtain rfl : code = block s .doNanoLoop := waits.rest
    rfl
  rw [here, waits.world] at left
  exact left

end Sessions

/-- **What Ctrl+S writes.** While keys are typed, `nano_len` is at most 2047 and nothing is stored outside of
the buffers. The text to be written is the edited file exactly if the whole text is in the buffer; and so is
the file, on a volume in good order, if it was written. -/
theorem nano_saves_iff (s : Symbols) (placed : s.InWindow) (m : Machine Label Desk) (cwd : List UInt8)
    (start : AtPrompt s cwd m) (line : Line) (given : argument (line.rest 4) ≠ []) (path : CString)
    (absolute : path.val = opened cwd line) (v : Volume) (mounted : m.world.world.fat32 = some v)
    (file : List UInt8) (reads : v.ReadsAs m.world.world.disk path file) (keys : List UInt8) (d' : Disk)
    (pressed : Pressed v path m.world.world.disk (loaded m.world.world.heap file) keys d') :
    (∀ rest, m.world.keys = keys ++ rest → Runs (shell s) syscalls (enterNano s m line) fun m' =>
      (m'.label = .doNanoLoop ∧ m'.rest = block s .doNanoLoop ∧ m'.world.keys = rest) ∧
      (wordAt m'.memory s.nanoLen).toNat ≤ 2047 ∧
      Wrote (touched s) (line.into s m.memory) m.stores m'.memory m'.stores) ∧
    ∀ rest, m.world.keys = keys ++ 19 :: 24 :: rest →
      (ComesBack s m line (fun desk => desk.saves.head? = some (path, edited file keys)) ↔
        shown m.world.world.heap file keys = true) ∧
      (v.WellFormed m.world.world.disk → ¬ [47, 47] <:+: path.val → ∀ d'',
        v.writeFile d' path (buffered (loaded m.world.world.heap file) keys) = some (d'', true) →
        (ComesBack s m line (fun desk => v.ReadsAs desk.world.disk path (edited file keys)) ↔
          shown m.world.world.heap file keys = true)) := by
  have shows : Shows (shown m.world.world.heap file keys) (buffered (loaded m.world.world.heap file) keys)
      (edited file keys) := (Shows.of_loaded _ _).pressAll keys
  refine ⟨fun rest next => ?_, fun rest next => ?_⟩
  · refine (enterNano_waits placed start given absolute mounted reads pressed next).mono ?_
    rintro m' ⟨memory, stores, wrote, -, waits⟩
    refine ⟨⟨waits.label, waits.rest, waits.keys⟩, ?_, ?_⟩
    · rw [waits.editing.length, UInt32.toNat_ofNat_of_lt' (lt_of_le_of_lt shows.room (by decide))]
      exact shows.room
    · exact wrote.trans (waits.editing.mono fun _ inside => .inr (.inr inside))
  have leaves := enterNano_leaves placed start given absolute mounted reads pressed next
  refine ⟨comesBack_iff leaves ?_, fun wf noEmpty d'' written => comesBack_iff leaves ?_⟩
  · rintro desk ⟨asked, -⟩
    rw [asked, ← shows.eq_iff]
    simp
  · rintro desk ⟨-, disk⟩
    obtain ⟨bytes, stands⟩ := pressed.stands wf.geometry noEmpty (Shows.of_loaded _ file).room
      (stands_of_readsAs wf reads)
    have saved := (stands.write wf.geometry noEmpty (lt_of_le_of_lt shows.room (by decide)) written).readsAs
      wf.geometry
    rw [disk d'' written, ← shows.eq_iff]
    exact ⟨fun other => saved.unique other, fun same => same ▸ saved⟩

/-! ### A disk -/

theorem slash_letter_terminated : (0 : UInt8) ∉ [47, 65] := by decide

/-- `/A`. -/
def slashLetter : CString := ⟨[47, 65], slash_letter_terminated⟩

/-- The memory of a shell in the root directory. -/
def rootMemory : Memory := fun a => if a = 0x00400400 then 47 else 0

/-- The shell at the prompt, with a disk and the keys that will be typed. -/
def seated (disk : Disk) (keys : List UInt8) : Machine Label Desk where
  regs := ⟨0, 0, 0, 0, 0, 0⟩
  memory := rootMemory
  flags := .ofResult 0
  stack := []
  label := .promptLoop
  rest := []
  world :=
    { world :=
        { fat32 := some sample, disk := disk, heap := true, stale := fun _ => 0, text := fun _ => slashLetter,
          memory := fun _ => 0, scheduler := Scheduler.init, keys := ⟨[], no_keys⟩, deaths := fun _ => none,
          terminal := true, network := fun _ => 0 }
      keys := keys
      saves := [] }
  stores := []
  overflow := false

theorem seated_atPrompt (disk : Disk) (keys : List UInt8) :
    AtPrompt ⟨0x00400000, fun _ => 0⟩ [47] (seated disk keys) := by
  have ended : rootMemory (Symbols.lineBuf ⟨0x00400000, fun _ => 0⟩ + UInt32.ofNat 255) = 0 := by decide
  have there : Cstr rootMemory (Symbols.cwdBuf ⟨0x00400000, fun _ => 0⟩) [47] := by decide
  exact ⟨rfl, rfl, ended, there, rfl, by decide⟩

/-- `nano A`. -/
def nanoLetter : Line := .typed [110, 97, 110, 111, 32, 65, 10]

theorem argument_nanoLetter : argument (nanoLetter.rest 4) = [65] := by decide +kernel

theorem opened_nanoLetter : slashLetter.val = opened [47] nanoLetter := by
  rw [opened, argument_nanoLetter]
  decide

theorem withLetter_reads : sample.ReadsAs withLetter slashLetter [1, 2, 3] := by
  unfold Volume.ReadsAs
  decide +kernel

/-- A byte is appended to a file of three bytes. -/
theorem nano_appends : ∃ d'', sample.writeFile withLetter slashLetter [1, 2, 3, 67] = some (d'', true) ∧
    ComesBack ⟨0x00400000, fun _ => 0⟩ (seated withLetter [67, 19, 24]) nanoLetter
      (fun desk => desk.saves.head? = some (slashLetter, [1, 2, 3, 67])) ∧
    ComesBack ⟨0x00400000, fun _ => 0⟩ (seated withLetter [67, 19, 24]) nanoLetter
      (fun desk => sample.ReadsAs desk.world.disk slashLetter [1, 2, 3, 67]) := by
  obtain ⟨d'', written⟩ : ∃ d'', sample.writeFile withLetter slashLetter [1, 2, 3, 67] = some (d'', true) :=
    exists_result (by decide +kernel)
  have given : argument (nanoLetter.rest 4) ≠ [] := by
    rw [argument_nanoLetter]
    decide
  have pressed : Pressed sample slashLetter withLetter (loaded true [1, 2, 3]) [67] withLetter :=
    .edit (by decide) (by decide) (.nil ..)
  obtain ⟨-, back⟩ := nano_saves_iff ⟨0x00400000, fun _ => 0⟩ (by decide) (seated withLetter [67, 19, 24]) [47]
    (seated_atPrompt ..) nanoLetter given slashLetter opened_nanoLetter sample rfl [1, 2, 3] withLetter_reads
    [67] withLetter pressed
  obtain ⟨asked, reads⟩ := back [] rfl
  exact ⟨d'', written, asked.mpr (by decide),
    (reads withLetter_wellFormed (by decide) d'' written).mpr (by decide)⟩

/-- The disk with a file of one byte more than the buffer takes. -/
def withLong : Disk :=
  ((sample.writeFile withLetter slashLetter (List.replicate 2048 65)).getD (blank, false)).1

theorem long_file : ∃ d file, sample.WellFormed d ∧ sample.ReadsAs d slashLetter file ∧ file.length = 2048 := by
  obtain ⟨d', written⟩ : ∃ d', sample.writeFile withLetter slashLetter (List.replicate 2048 65) =
      some (d', true) := exists_result (by decide +kernel)
  have word : (List.replicate 2048 (65 : UInt8)).length < 2 ^ 32 := by
    rw [List.length_replicate]
    decide
  have stands := (stands_of_readsAs withLetter_wellFormed withLetter_reads).write sample_geometry (by decide)
    word written
  have same : withLong = d' := by rw [withLong, written, Option.getD_some]
  refine ⟨withLong, List.replicate 2048 65, sample_wellFormed [2] (by decide +kernel), ?_,
    List.length_replicate⟩
  rw [same]
  exact stands.readsAs sample_geometry

/-- **A file of 2048 bytes loses its last byte** when it is opened and saved. -/
theorem nano_cuts_file : ¬ ∀ (s : Symbols) (m : Machine Label Desk) (cwd : List UInt8) (line : Line)
    (path : CString) (v : Volume) (file keys rest : List UInt8) (d' : Disk), s.InWindow → AtPrompt s cwd m →
    argument (line.rest 4) ≠ [] → path.val = opened cwd line → m.world.world.fat32 = some v →
    m.world.world.heap = true → v.WellFormed m.world.world.disk → v.ReadsAs m.world.world.disk path file →
    file.length ≤ 65536 → Pressed v path m.world.world.disk (loaded m.world.world.heap file) keys d' →
    m.world.keys = keys ++ 19 :: 24 :: rest →
    ComesBack s m line fun desk => desk.saves.head? = some (path, edited file keys) := by
  intro all
  obtain ⟨d, file, wf, reads, length⟩ := long_file
  have given : argument (nanoLetter.rest 4) ≠ [] := by
    rw [argument_nanoLetter]
    decide
  have pressed : Pressed sample slashLetter d (loaded true file) [] d := .nil ..
  have back := all ⟨0x00400000, fun _ => 0⟩ (seated d [19, 24]) [47] nanoLetter slashLetter sample file [] [] d
    (by decide) (seated_atPrompt ..) given opened_nanoLetter rfl rfl wf reads (by omega) pressed rfl
  have leaves := enterNano_leaves (by decide) (seated_atPrompt d [19, 24]) given opened_nanoLetter rfl reads
    pressed rfl
  have whole : file.take 2047 = file := by
    refine (comesBack_iff leaves ?_).mp back
    rintro desk ⟨asked, -⟩
    rw [asked]
    simp [loaded, buffered, edited, seated]
  have same := congrArg List.length whole
  rw [List.length_take, length] at same
  exact absurd same (by decide)

end LaylaOS.User
