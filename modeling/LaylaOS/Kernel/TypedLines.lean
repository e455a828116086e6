/-
**From the keys to the reader.**

Keys go to the terminal, which edits a line and puts it into the keyboard buffer at Enter, and
`sys_read` takes it from there. Beside them runs the editor that the user has in mind, whose lines have
no place where they are stored. The limit of 255 characters leaves `input_line` one byte for the newline
and none for the terminator, and the buffer holds 255 characters.

* `Session.typed_lines_intact_iff` — the lines reach the reader, and `input_line` is accessed inside,
  exactly if Enter is never pressed behind 255 characters.
-/

import LaylaOS.Kernel.Syscall
import LaylaOS.Ui.Terminal

namespace LaylaOS.Kernel

open LaylaOS.Lib LaylaOS.Ui

/-! ### The copy loop of `sys_read` -/

/-- At most `n` characters, up to a newline. -/
def readLoop : Nat → KeyboardBuffer → List UInt8 × KeyboardBuffer
  | 0, keys => ([], keys)
  | n + 1, keys =>
    match keys.dequeue with
    | none => ([], keys)
    | some (c, keys) =>
      if c = 10 then ([c], keys) else (c :: (readLoop n keys).1, (readLoop n keys).2)

/-- **The loop** returns what `readLine` takes from the entries, and leaves the others. -/
theorem readLoop_spec (n : Nat) (keys : KeyboardBuffer) : (readLoop n keys).1 = World.readLine n keys.toList ∧
      (readLoop n keys).1 ++ (readLoop n keys).2.toList = keys.toList := by
  induction n generalizing keys with
  | zero => exact ⟨rfl, rfl⟩
  | succ n ih =>
    unfold readLoop
    cases taken : keys.dequeue with
    | none =>
      have empty := keys.dequeue_eq_none_iff.mp taken
      exact ⟨by rw [empty]; rfl, rfl⟩
    | some pair =>
      obtain ⟨c, rest⟩ := pair
      rw [keys.toList_dequeue taken]
      dsimp only [World.readLine]
      split_ifs
      · exact ⟨rfl, rfl⟩
      · exact ⟨congrArg _ (ih rest).1, congrArg _ (ih rest).2⟩

/-! ### The editor -/

/-- The line that is being typed, and the lines that were, each with its newline. -/
structure Editor where
  line : List UInt8
  submitted : List UInt8

/-- A key: backspace, Enter, or a printable character, of which a line takes 255. -/
def Editor.press (e : Editor) (c : UInt8) : Editor :=
  if c = 8 then { e with line := e.line.dropLast }
  else if c = 10 then ⟨[], e.submitted ++ (e.line ++ [10])⟩
  else if printable c ∧ e.line.length < 255 then { e with line := e.line ++ [c] }
  else e

/-! ### One key in cooked mode -/

section Key

variable {t : Terminal} {e : Editor} (cooked : t.rawInputMode = false) (keys : KeyboardBuffer)

include cooked

/-- **Enter** passes on the line and a newline, and starts a new line. -/
theorem onKeyPress_enter : (t.onKeyPress keys 10).terminal.line = [] ∧
      (t.onKeyPress keys 10).keys = (t.line ++ [10]).foldl Ring.enqueue keys ∧
      (t.onKeyPress keys 10).accesses = t.inputLen :: (t.inputLen + 1) :: List.range (t.inputLen + 1) := by
  unfold Terminal.onKeyPress
  rw [if_neg (by rw [cooked]; decide), if_neg (by decide), if_pos rfl]
  refine ⟨rfl, ?_, rfl⟩
  dsimp only
  rw [Terminal.slice_update_of_le _ le_rfl, Terminal.slice_update_succ, Terminal.line]

/-- **Any other key** edits the line, and touches neither the buffer nor a byte behind the line. -/
theorem onKeyPress_edit {c : UInt8} (edits : c ≠ 10) (same : t.line = e.line) :
    (t.onKeyPress keys c).terminal.line = (e.press c).line ∧ (t.onKeyPress keys c).keys = keys ∧
      (e.press c).submitted = e.submitted ∧
      ∀ index ∈ (t.onKeyPress keys c).accesses, index < 255 := by
  have length : e.line.length = t.inputLen := by rw [← same, t.line_length]
  unfold Terminal.onKeyPress Editor.press
  rw [if_neg (by rw [cooked]; decide), length]
  split_ifs with back some room
  · refine ⟨?_, rfl, rfl, List.forall_mem_nil _⟩
    rw [← same]
    exact t.line_dropLast.symm
  · refine ⟨?_, rfl, rfl, List.forall_mem_nil _⟩
    -- an empty line stays empty
    have empty : e.line = [] := List.length_eq_zero_iff.mp (by omega)
    rw [same, empty]
    rfl
  · refine ⟨?_, rfl, rfl, ?_⟩
    · rw [← same]
      exact Terminal.slice_update_succ _ _ _
    · intro index mem
      rw [List.mem_singleton.mp mem]
      exact room.2
  · exact ⟨same, rfl, rfl, List.forall_mem_nil _⟩

end Key

/-! ### Sessions -/

/-- The terminal with its readers, and the editor beside them. `accesses` are all the indices at which
`OnKeyPress` has read or written `input_line`. -/
structure Session where
  terminal : Terminal
  keys : KeyboardBuffer
  delivered : List UInt8
  accesses : List Nat
  editor : Editor

/-- A key press, or a call `sys_read(0, buf, n)`. -/
inductive SessionEvent
  | key (c : UInt8)
  | read (n : Nat)

namespace Session

/-- From now on: the editor has the line of the terminal, and what is in the buffer is submitted. -/
def start (t : Terminal) (keys : KeyboardBuffer) : Session :=
  ⟨t, keys, [], [], ⟨t.line, keys.toList⟩⟩

def step (s : Session) : SessionEvent → Session
  | .key c =>
    let press := s.terminal.onKeyPress s.keys c
    { s with
      terminal := press.terminal
      keys := press.keys
      accesses := s.accesses ++ press.accesses
      editor := s.editor.press c }
  | .read n =>
    -- with an empty buffer the call waits
    if s.keys.isEmpty then s
    else
      { s with
        keys := (readLoop n s.keys).2
        delivered := s.delivered ++ (readLoop n s.keys).1 }

/-- What was read and what is there to be read are the lines that were typed, and `input_line` was
accessed inside. -/
structure Intact (s : Session) : Prop where
  lines : s.delivered ++ s.keys.toList = s.editor.submitted
  inside : ∀ index ∈ s.accesses, index < 256

/-- The readers have taken everything before Enter is pressed. -/
def Drained (s : Session) : SessionEvent → Prop
  | .key c => c = 10 → s.keys.isEmpty
  | .read _ => True

/-- Enter is pressed behind fewer than 255 characters. -/
def Fits (s : Session) : SessionEvent → Prop
  | .key c => c = 10 → s.terminal.inputLen < 255
  | .read _ => True

instance (s : Session) : (event : SessionEvent) → Decidable (s.Drained event)
  | .key c => inferInstanceAs (Decidable (c = 10 → s.keys.isEmpty))
  | .read _ => isTrue trivial

instance (s : Session) : (event : SessionEvent) → Decidable (s.Fits event)
  | .key c => inferInstanceAs (Decidable (c = 10 → s.terminal.inputLen < 255))
  | .read _ => isTrue trivial

/-- The invariant: the terminal edits the line that the editor does, and nothing is lost. -/
structure Good (s : Session) : Prop extends s.Intact where
  cooked : s.terminal.rawInputMode = false
  line : s.terminal.line = s.editor.line

/-- The byte behind `input_line` was accessed. -/
def Outside (s : Session) : Prop := 256 ∈ s.accesses

theorem Good.step {s : Session} (good : s.Good) {event : SessionEvent} (drained : s.Drained event)
    (fits : s.Fits event) : (s.step event).Good := by
  cases event with
  | read n =>
    unfold Session.step
    split_ifs
    · exact good
    · refine ⟨⟨?_, good.inside⟩, good.cooked, good.line⟩
      show s.delivered ++ (readLoop n s.keys).1 ++ (readLoop n s.keys).2.toList = _
      rw [List.append_assoc, (readLoop_spec n s.keys).2, good.lines]
  | key c =>
    have cooked := (s.terminal.onKeyPress_rawInputMode s.keys c).trans good.cooked
    by_cases enter : c = 10
    · subst enter
      obtain ⟨line, keys, accesses⟩ := onKeyPress_enter good.cooked s.keys
      have empty : s.keys.toList = [] := s.keys.isEmpty_iff.mp (drained rfl)
      have short : s.terminal.inputLen < 255 := fits rfl
      refine ⟨⟨?_, ?_⟩, cooked, line⟩
      · show s.delivered ++ (s.terminal.onKeyPress s.keys 10).keys.toList =
          s.editor.submitted ++ (s.editor.line ++ [10])
        rw [keys, Ring.toList_enqueueAll, ← good.lines, good.line, empty, List.append_nil, List.nil_append]
        rw [← Ring.toList_length, empty, List.length_append, Terminal.line_length]
        show 0 + (s.terminal.inputLen + 1) < 256
        omega
      · intro index mem
        rcases List.mem_append.mp mem with old | new
        · exact good.inside index old
        · rw [accesses, List.mem_cons, List.mem_cons, List.mem_range] at new
          omega
    · obtain ⟨line, keys, submitted, inside⟩ := onKeyPress_edit good.cooked s.keys enter good.line
      refine ⟨⟨?_, ?_⟩, cooked, line⟩
      · show s.delivered ++ (s.terminal.onKeyPress s.keys c).keys.toList = (s.editor.press c).submitted
        rw [keys, submitted, good.lines]
      · intro index mem
        rcases List.mem_append.mp mem with old | new
        · exact good.inside index old
        · exact (inside index new).trans (by decide)

theorem Good.breach {s : Session} (good : s.Good) {event : SessionEvent} (breach : ¬ s.Fits event) :
    (s.step event).Outside := by
  cases event with
  | read n => exact absurd trivial breach
  | key c =>
    obtain ⟨rfl, long⟩ := Classical.not_imp.mp breach
    have full : s.terminal.inputLen = 255 := Nat.le_antisymm s.terminal.inputLen_le (Nat.le_of_not_lt long)
    obtain ⟨_, _, accesses⟩ := onKeyPress_enter good.cooked s.keys
    refine List.mem_append_right _ ?_
    rw [accesses, full]
    exact List.mem_cons_of_mem _ List.mem_cons_self

theorem Outside.step {s : Session} (outside : s.Outside) (event : SessionEvent) : (s.step event).Outside := by
  cases event with
  | read n =>
    unfold Session.step
    split_ifs <;> exact outside
  | key c => exact List.mem_append_left _ outside

theorem start_good {t : Terminal} (cooked : t.rawInputMode = false) (keys : KeyboardBuffer) :
    (start t keys).Good := ⟨⟨rfl, nofun⟩, cooked, rfl⟩

/-- **Typed lines reach the reader**, exactly: if the readers drain the buffer before each Enter, the
lines are intact and `input_line` is accessed inside if and only if every Enter is pressed behind fewer
than 255 characters. -/
theorem typed_lines_intact_iff (t : Terminal) (keys : KeyboardBuffer) (events : List SessionEvent)
    (cooked : t.rawInputMode = false) (drained : Always step Drained (start t keys) events) :
    (events.foldl step (start t keys)).Intact ↔ Always step Fits (start t keys) events := by
  rcases Always.good_or_bad Good Outside (fun _ _ good drained fits => good.step drained fits)
    (fun _ _ good _ breach => good.breach breach) (fun _ event outside => outside.step event)
    (start_good cooked keys) drained with ⟨always, good⟩ | ⟨never, outside⟩
  · exact iff_of_true good.toIntact always
  · exact iff_of_false (fun intact => absurd (intact.inside 256 outside) (by decide)) never

/-- `ls`, a key that is taken back, Enter, and two reads. -/
def shortLine : List SessionEvent := [.key 108, .key 115, .key 120, .key 8, .key 10, .read 2, .read 9]

theorem typed_lines_intact_short : (shortLine.foldl step (start .new .init)).delivered = [108, 115, 10] ∧
      (shortLine.foldl step (start .new .init)).Intact :=
  ⟨by decide, (typed_lines_intact_iff .new .init shortLine rfl (by decide)).mpr (by decide)⟩

/-- **The longest line** that can be typed: Enter behind 255 characters. -/
theorem longest_line_leaves_buffer : ¬ ∀ (t : Terminal) (keys : KeyboardBuffer)
    (events : List SessionEvent), t.rawInputMode = false → Always step Drained (start t keys) events →
    (events.foldl step (start t keys)).Intact := by
  intro claim
  have intact := claim .new .init (List.replicate 255 (.key 97) ++ [.key 10]) rfl (by decide +kernel)
  exact absurd (intact.inside 256 (by decide +kernel)) (by decide)

end Session

end LaylaOS.Kernel
