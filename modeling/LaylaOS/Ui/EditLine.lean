/-
**The line on the screen and the line in the buffer** (`Terminal::OnKeyPress`, `Backspace`, `PutChar`).

A key changes `input_line` and the window separately. Read row by row the window is one line of 920
cells, in which a character goes one cell forward, also across the end of a row, and where the window
moves up everything moves 40 cells back.

* `typing_echoes` — they do after any keys but Enter, and a backspace erases the last character of both.
-/

import LaylaOS.Ui.Terminal

namespace LaylaOS.Ui

open LaylaOS.Lib

namespace Screen

/-- The cells row by row. -/
def cell (s : Screen) (place : Nat) : UInt8 := s.grid (place / cols) (place % cols)

/-- The place of the cursor. -/
def position (s : Screen) : Nat := s.cursorRow * cols + s.cursorCol

/-- `s'` is `s` with a character stored at the cursor, which then went one cell forward; the window may
have moved up on the way, but the cursor is far from its top then. -/
def Advances (s : Screen) (c : UInt8) (s' : Screen) : Prop :=
  ∃ lifted, s'.position + lifted = s.position + 1 ∧ (lifted = 0 ∨ 256 ≤ s'.position) ∧
    ∀ place < s'.position,
      s'.cell place = if place + lifted = s.position then c else s.cell (place + lifted)

variable {s : Screen}

theorem OnGrid.place_iff (on : s.OnGrid) (place : Nat) :
    place / cols = s.cursorRow ∧ place % cols = s.cursorCol ↔ place = s.position := by
  have col := on.col
  unfold position cols at *
  omega

theorem OnGrid.cell_set (on : s.OnGrid) (c : UInt8) (place : Nat) :
    (s.set c).cell place = if place = s.position then c else s.cell place := by
  show (if place / cols = s.cursorRow ∧ place % cols = s.cursorCol then c else _) = _
  simp only [on.place_iff]
  rfl

/-- **A backspace** goes one cell back, unless it is at the top, and clears the cell. -/
theorem OnGrid.backspace_erases (on : s.OnGrid) : s.backspace.position = s.position - 1 ∧
    ∀ place, s.backspace.cell place = if place = s.position - 1 then 32 else s.cell place := by
  have col := on.col
  have row := on.row
  -- the cursor after it has moved, before the cell is cleared
  have erases {moved : Screen} (there : moved.OnGrid) (same : moved.grid = s.grid)
      (back : moved.position = s.position - 1) : (moved.set 32).position = s.position - 1 ∧
        ∀ place, (moved.set 32).cell place = if place = s.position - 1 then 32 else s.cell place := by
    refine ⟨back, fun place => ?_⟩
    rw [there.cell_set, back]
    unfold cell
    rw [same]
  unfold Screen.backspace
  dsimp only
  split_ifs with inside below
  · refine erases ⟨(Nat.sub_le _ _).trans_lt col, row⟩ rfl ?_
    exact (Nat.add_sub_assoc inside _).symm
  · refine erases ⟨(by decide : cols - 1 < cols), (Nat.sub_le _ _).trans_lt row⟩ rfl ?_
    show (s.cursorRow - 1) * cols + (cols - 1) = s.cursorRow * cols + s.cursorCol - 1
    unfold cols at *
    omega
  · refine erases on rfl ?_
    show s.cursorRow * cols + s.cursorCol = s.cursorRow * cols + s.cursorCol - 1
    unfold cols at *
    omega

theorem cell_scrollUp (s : Screen) {place : Nat} (inside : place < (rows - 1) * cols) :
    s.scrollUp.cell place = s.cell (place + cols) := by
  have above : place / cols < rows - 1 := Nat.div_lt_of_lt_mul (by rwa [Nat.mul_comm])
  have next : (place + cols) / cols = place / cols + 1 := Nat.add_div_right _ (by decide)
  unfold cell
  rw [next, Nat.add_mod_right]
  exact if_pos above

/-- **A new row** is right behind the one before, and where that was the last one, everything has moved
up by a row. -/
theorem newLine_lifts (row : s.cursorRow < rows) : ∃ lifted,
    s.newLine.position + lifted = (s.cursorRow + 1) * cols ∧ (lifted = 0 ∨ 256 ≤ s.newLine.position) ∧
      ∀ place < s.newLine.position, s.newLine.cell place = s.cell (place + lifted) := by
  unfold newLine
  dsimp only
  split_ifs with bottom
  · have last : s.cursorRow + 1 = rows := le_antisymm row bottom
    let below : Screen := { s with cursorCol := 0, cursorRow := s.cursorRow + 1 }
    have top : below.scrollUp.position = (rows - 1) * cols := by
      show (if s.cursorRow + 1 > 0 then s.cursorRow + 1 - 1 else s.cursorRow + 1) * cols + 0 = _
      rw [if_pos (Nat.succ_pos _), last, Nat.add_zero]
    refine ⟨cols, ?_, .inr ?_, fun place before => ?_⟩
    · rw [top, last]
      rfl
    · rw [top]
      decide
    · rw [top] at before
      exact below.cell_scrollUp before
  · exact ⟨0, rfl, .inl rfl, fun _ _ => rfl⟩

theorem OnGrid.putChar_advances (on : s.OnGrid) {c : UInt8} (feed : c ≠ 10) (back : c ≠ 8) :
    s.Advances c (s.putChar c) := by
  have cell := on.cell_set c
  unfold Screen.putChar
  rw [if_neg feed, if_neg back]
  dsimp only
  split_ifs with full
  · have last : s.cursorCol + 1 = cols := le_antisymm on.col full
    obtain ⟨lifted, position, far, cells⟩ := newLine_lifts
      (s := { s.set c with cursorCol := (s.set c).cursorCol + 1 }) on.row
    refine ⟨lifted, ?_, far, fun place before => ?_⟩
    · rw [position, Screen.position, Nat.add_assoc, last]
      exact Nat.succ_mul _ _
    · exact (cells place before).trans (cell (place + lifted))
  · exact ⟨0, rfl, .inl rfl, fun place _ => cell place⟩

end Screen

/-! ### The line -/

namespace Terminal

/-- The cells before the cursor hold the line that is being edited, and the cursor is on the window. -/
structure Echoes (t : Terminal) : Prop where
  on : t.screen.OnGrid
  room : t.inputLen ≤ t.screen.position
  cells : ∀ k, 1 ≤ k → k ≤ t.inputLen →
    t.screen.cell (t.screen.position - k) = t.inputLine (t.inputLen - k)

/-- `t'` is `t` without the last character, on the screen and in the buffer. -/
structure Erases (t t' : Terminal) : Prop where
  line : t'.line = t.line.dropLast
  position : t'.screen.position + 1 = t.screen.position
  cells : ∀ place, t'.screen.cell place =
    if place + 1 = t.screen.position then 32 else t.screen.cell place

variable {t : Terminal} (keys : KeyboardBuffer)

theorem Echoes.erases (echoes : t.Echoes) (cooked : t.rawInputMode = false) (some : 0 < t.inputLen) :
    t.Erases (t.onKeyPress keys 8).terminal ∧ (t.onKeyPress keys 8).terminal.Echoes := by
  have raw : ¬ t.rawInputMode = true := by rw [cooked]; decide
  have pressed : (t.onKeyPress keys 8).terminal = { t with
      inputLen := t.inputLen - 1
      screen := t.screen.backspace
      inputLen_le := (Nat.sub_le _ _).trans t.inputLen_le } := by
    unfold onKeyPress
    rw [if_neg raw, if_pos rfl, if_pos some]
  obtain ⟨position, cells⟩ := echoes.on.backspace_erases
  have room := echoes.room
  rw [pressed]
  constructor
  · refine ⟨t.line_dropLast.symm, ?_, fun place => ?_⟩
    · show t.screen.backspace.position + 1 = _
      omega
    · refine (cells place).trans ?_
      simp only [show place = t.screen.position - 1 ↔ place + 1 = t.screen.position by omega]
  · refine ⟨echoes.on.backspace, ?_, fun k first last => ?_⟩
    · show t.inputLen - 1 ≤ t.screen.backspace.position
      omega
    · replace last : k ≤ t.inputLen - 1 := last
      have kept := echoes.cells (k + 1) (by omega) (by omega)
      show t.screen.backspace.cell (t.screen.backspace.position - k) = t.inputLine (t.inputLen - 1 - k)
      rw [cells, position, if_neg (by omega), Nat.sub_sub, Nat.sub_sub, Nat.add_comm 1, kept]

theorem Echoes.onKeyPress (echoes : t.Echoes) (cooked : t.rawInputMode = false) {c : UInt8}
    (edits : c ≠ 10) : (t.onKeyPress keys c).terminal.Echoes := by
  have raw : ¬ t.rawInputMode = true := by rw [cooked]; decide
  by_cases back : c = 8
  · subst back
    by_cases some : 0 < t.inputLen
    · exact (echoes.erases keys cooked some).2
    · unfold Terminal.onKeyPress
      rwa [if_neg raw, if_pos rfl, if_neg some]
  unfold Terminal.onKeyPress
  rw [if_neg raw, if_neg back, if_neg edits]
  split_ifs with room
  · obtain ⟨lifted, position, far, cells⟩ := echoes.on.putChar_advances edits back
    have short := room.2
    have behind := echoes.room
    refine ⟨echoes.on.putChar c, ?_, fun k first last => ?_⟩
    · show t.inputLen + 1 ≤ (t.screen.putChar c).position
      omega
    · replace last : k ≤ t.inputLen + 1 := last
      show (t.screen.putChar c).cell ((t.screen.putChar c).position - k) =
        Function.update t.inputLine t.inputLen c (t.inputLen + 1 - k)
      rw [cells _ (by omega)]
      by_cases newest : k = 1
      · subst newest
        rw [if_pos (by omega), Nat.add_sub_cancel, Function.update_self]
      · have older := echoes.cells (k - 1) (by omega) (by omega)
        rw [if_neg (by omega), Function.update_of_ne (by omega),
          show t.inputLen + 1 - k = t.inputLen - (k - 1) by omega, ← older]
        congr 1
        omega
  · exact echoes

/-- A key, with the keyboard buffer as it finds it. -/
def pressKey (t : Terminal) (press : KeyboardBuffer × UInt8) : Terminal :=
  (t.onKeyPress press.1 press.2).terminal

/-- **The echoed line and the edit buffer agree**, after any keys but Enter, and a backspace erases the
last character of both. -/
theorem typing_echoes (t : Terminal) (cooked : t.rawInputMode = false) (empty : t.inputLen = 0)
    (on : t.screen.OnGrid) (presses : List (KeyboardBuffer × UInt8))
    (edits : ∀ press ∈ presses, press.2 ≠ 10) :
    (presses.foldl pressKey t).Echoes ∧ ∀ keys, 0 < (presses.foldl pressKey t).inputLen →
      (presses.foldl pressKey t).Erases ((presses.foldl pressKey t).onKeyPress keys 8).terminal := by
  have kept : (presses.foldl pressKey t).rawInputMode = false ∧ (presses.foldl pressKey t).Echoes := by
    refine List.foldlRecOn (motive := fun t : Terminal => t.rawInputMode = false ∧ t.Echoes)
      presses pressKey ⟨cooked, on, ?_, fun k first last => ?_⟩ fun t before press member => ?_
    · rw [empty]
      exact Nat.zero_le _
    · rw [empty] at last
      exact absurd (first.trans last) (by decide)
    · obtain ⟨cooked, echoes⟩ := before
      refine ⟨?_, echoes.onKeyPress press.1 cooked (edits press member)⟩
      exact (t.onKeyPress_rawInputMode press.1 press.2).trans cooked
  exact ⟨kept.2, fun keys some => (kept.2.erases keys kept.1 some).1⟩

/-- Two characters are typed at the end of the last row. -/
theorem typing_echoes_last_row : ([(KeyboardBuffer.init, 104), (KeyboardBuffer.init, 105)].foldl pressKey
      { Terminal.new with screen := ⟨fun _ _ => 32, 39, 22⟩ }).Echoes :=
  (typing_echoes { Terminal.new with screen := ⟨fun _ _ => 32, 39, 22⟩ } rfl rfl
    ⟨by decide, by decide⟩ [(KeyboardBuffer.init, 104), (KeyboardBuffer.init, 105)] (by decide)).1

end Terminal

end LaylaOS.Ui
