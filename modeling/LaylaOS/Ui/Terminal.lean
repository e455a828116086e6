/-
**The terminal window and the keyboard buffer.**

`Terminal::OnKeyPress` edits a line in `input_line[256]` and shows it on a grid of 23 rows of 40
characters. Enter passes the line on to `KeyboardBuffer`, a ring of 256 slots; in raw mode every key
goes there at once. A key press is modelled with the indices at which it reads or writes `input_line`.

* `keyboardBuffer_fifo` — the keyboard buffer is a queue of capacity 255.
-/

import LaylaOS.Lib.Fifo
import LaylaOS.Lib.Buffers

namespace LaylaOS.Ui

open LaylaOS.Lib

/-! ### The keyboard buffer -/

/-- `KeyboardBuffer`, with its `Enqueue`, `Dequeue` and `IsEmpty`. -/
abbrev KeyboardBuffer : Type := Ring UInt8 256

/-- `KeyboardBuffer::Init`, on the static array. -/
def KeyboardBuffer.init : KeyboardBuffer where
  slots := fun _ => 0
  head := 0
  tail := 0
  head_lt := by decide
  tail_lt := by decide

/-- `KeyboardBuffer::Init`, whatever the buffer holds: the array is not cleared. -/
def KeyboardBuffer.reset (buffer : KeyboardBuffer) : KeyboardBuffer :=
  { buffer with head := 0, tail := 0, head_lt := by decide, tail_lt := by decide }

theorem KeyboardBuffer.fifo_reset (buffer : KeyboardBuffer) :
    buffer.reset.fifo = (Fifo.empty : Fifo UInt8 255) := by
  ext1
  exact buffer.reset.isEmpty_iff.mp rfl

/-- **The keyboard buffer is a bounded queue.** After `Init`, any calls have the answers that they
have on a queue of capacity 255, the same characters are accepted, and they come out in order. -/
theorem keyboardBuffer_fifo (buffer : KeyboardBuffer) (calls : List (QueueCall UInt8)) :
    let s := calls.foldl Ring.call (Session.start buffer.reset)
    let spec := calls.foldl Fifo.call (Session.start (Fifo.empty : Fifo UInt8 255))
    s.answers = spec.answers ∧ s.accepted = spec.accepted ∧ s.queue.toList = spec.queue.entries ∧
      (s.queue.isEmpty = true ↔ spec.queue.entries = []) ∧
      s.accepted = s.delivered ++ s.queue.toList ∧ s.queue.head < 256 ∧ s.queue.tail < 256 := by
  intro s spec
  have same : s.map Ring.fifo = spec := by
    have run := Ring.simulates.run (s := Session.start buffer.reset) trivial calls
    rw [List.map_id] at run
    refine run.trans ?_
    show calls.foldl Fifo.call (Session.start buffer.reset.fifo) = spec
    rw [buffer.fifo_reset]
  have conserved : Fifo.Conserved spec := Fifo.conserved calls
  rw [← same] at conserved ⊢
  exact ⟨rfl, rfl, rfl, s.queue.isEmpty_iff, conserved, s.queue.head_lt, s.queue.tail_lt⟩

/-! ### The grid -/

def cols : Nat := 40
def rows : Nat := 23

/-- The characters on the window and the cursor. Every character has the colour `COL_TEXT`. -/
structure Screen where
  grid : Nat → Nat → UInt8
  cursorCol : Nat
  cursorRow : Nat

namespace Screen

def blank : Screen := ⟨fun _ _ => 32, 0, 0⟩

/-- The character under the cursor. -/
def set (s : Screen) (c : UInt8) : Screen :=
  { s with grid := fun row col =>
      if row = s.cursorRow ∧ col = s.cursorCol then c else s.grid row col }

def scrollUp (s : Screen) : Screen where
  grid := fun row col =>
    if row < rows - 1 then s.grid (row + 1) col else if row = rows - 1 then 32 else s.grid row col
  cursorCol := s.cursorCol
  cursorRow := if s.cursorRow > 0 then s.cursorRow - 1 else s.cursorRow

def newLine (s : Screen) : Screen :=
  let s := { s with cursorCol := 0, cursorRow := s.cursorRow + 1 }
  if s.cursorRow ≥ rows then s.scrollUp else s

def backspace (s : Screen) : Screen :=
  let s :=
    if s.cursorCol > 0 then { s with cursorCol := s.cursorCol - 1 }
    else if s.cursorRow > 0 then { s with cursorRow := s.cursorRow - 1, cursorCol := cols - 1 }
    else s
  s.set 32

def putChar (s : Screen) (c : UInt8) : Screen :=
  if c = 10 then s.newLine
  else if c = 8 then s.backspace
  else
    let s := s.set c
    let s := { s with cursorCol := s.cursorCol + 1 }
    if s.cursorCol ≥ cols then s.newLine else s

/-- The cursor is on the grid, and so is every character that is stored there. -/
structure OnGrid (s : Screen) : Prop where
  col : s.cursorCol < cols
  row : s.cursorRow < rows

theorem newLine_onGrid {s : Screen} (row : s.cursorRow < rows) : s.newLine.OnGrid := by
  unfold newLine
  dsimp only
  split_ifs with full
  · refine ⟨(by decide : 0 < cols), ?_⟩
    show (if s.cursorRow + 1 > 0 then s.cursorRow + 1 - 1 else s.cursorRow + 1) < rows
    rwa [if_pos (Nat.succ_pos _), Nat.add_sub_cancel]
  · exact ⟨(by decide : 0 < cols), Nat.lt_of_not_ge full⟩

theorem OnGrid.backspace {s : Screen} (on : s.OnGrid) : s.backspace.OnGrid := by
  unfold Screen.backspace
  dsimp only
  split_ifs
  · exact ⟨(Nat.sub_le _ _).trans_lt on.col, on.row⟩
  · exact ⟨(by decide : cols - 1 < cols), (Nat.sub_le _ _).trans_lt on.row⟩
  · exact ⟨on.col, on.row⟩

theorem OnGrid.putChar {s : Screen} (on : s.OnGrid) (c : UInt8) : (s.putChar c).OnGrid := by
  unfold Screen.putChar
  dsimp only
  split_ifs with newline back full
  · exact newLine_onGrid on.row
  · exact on.backspace
  · exact newLine_onGrid on.row
  · exact ⟨Nat.lt_of_not_ge full, on.row⟩

end Screen

/-! ### Key presses -/

/-- The fields that `OnKeyPress` works on. `input_len` never exceeds 255. -/
structure Terminal where
  screen : Screen
  inputLine : Storage
  inputLen : Nat
  rawInputMode : Bool
  inputLen_le : inputLen ≤ 255

/-- `Terminal::Terminal` -/
def Terminal.new : Terminal := ⟨.blank, fun _ => 0, 0, false, Nat.zero_le _⟩

/-- What a key press leaves. -/
structure KeyPress where
  terminal : Terminal
  keys : KeyboardBuffer
  woken : Bool
  accesses : List Nat

/-- `c >= 32`, for a signed `char`. -/
def printable (c : UInt8) : Bool := (32 : Int8) ≤ c.toInt8

namespace Terminal

/-- The line that is being edited. -/
def line (t : Terminal) : List UInt8 := slice t.inputLine 0 t.inputLen

/-- `Terminal::OnKeyPress`. At index 256 the terminator falls on the low byte of `input_len`, which is
256 there: it changes nothing, and `input_len` is cleared afterwards. -/
def onKeyPress (t : Terminal) (keys : KeyboardBuffer) (c : UInt8) : KeyPress :=
  if t.rawInputMode then ⟨t, keys.enqueue c, true, []⟩
  else if c = 8 then
    if t.inputLen > 0 then
      ⟨{ t with
          inputLen := t.inputLen - 1
          screen := t.screen.backspace
          inputLen_le := (Nat.sub_le _ _).trans t.inputLen_le }, keys, false, []⟩
    else ⟨t, keys, false, []⟩
  else if c = 10 then
    let inputLine := Function.update t.inputLine t.inputLen 10
    let inputLen := t.inputLen + 1
    let inputLine := Function.update inputLine inputLen 0
    ⟨{ t with
        inputLine := inputLine
        inputLen := 0
        screen := t.screen.putChar 10
        inputLen_le := Nat.zero_le _ },
      (slice inputLine 0 inputLen).foldl Ring.enqueue keys, true,
      t.inputLen :: inputLen :: List.range inputLen⟩
  else if room : printable c ∧ t.inputLen < 255 then
    ⟨{ t with
        inputLine := Function.update t.inputLine t.inputLen c
        inputLen := t.inputLen + 1
        screen := t.screen.putChar c
        inputLen_le := room.2 }, keys, false, [t.inputLen]⟩
  else ⟨t, keys, false, []⟩

variable {t : Terminal} {keys : KeyboardBuffer} {c : UInt8}

/-- **Readers are woken** by every key press that changes the keyboard buffer. -/
theorem onKeyPress_woken (quiet : (t.onKeyPress keys c).woken = false) : (t.onKeyPress keys c).keys = keys := by
  revert quiet
  unfold onKeyPress
  split_ifs <;> first | exact fun _ => rfl | exact nofun

theorem onKeyPress_rawInputMode (t : Terminal) (keys : KeyboardBuffer) (c : UInt8) :
    (t.onKeyPress keys c).terminal.rawInputMode = t.rawInputMode := by
  unfold onKeyPress
  split_ifs <;> rfl

/-! ### What a key does to the line -/

theorem slice_update_succ (storage : Storage) (count : Nat) (byte : UInt8) :
    slice (Function.update storage count byte) 0 (count + 1) = slice storage 0 count ++ [byte] := by
  rw [slice_add, Nat.zero_add]
  congr 1
  · refine slice_congr fun k bound => ?_
    exact Function.update_of_ne (by omega) _ _
  · exact congrArg ([·]) (Function.update_self _ _ _)

theorem slice_update_of_le (storage : Storage) {count index : Nat} (beyond : count ≤ index)
    (byte : UInt8) : slice (Function.update storage index byte) 0 count = slice storage 0 count :=
  slice_congr fun k bound => Function.update_of_ne (by omega) _ _

@[simp] theorem line_length (t : Terminal) : t.line.length = t.inputLen := slice_length _ _ _

theorem line_dropLast (t : Terminal) : t.line.dropLast = slice t.inputLine 0 (t.inputLen - 1) := by
  rw [List.dropLast_eq_take, line_length, line]
  exact take_drop_slice t.inputLine 0 (m := 0) (n := t.inputLen - 1) (by omega)

end Terminal

end LaylaOS.Ui
