/-
**What the terminal window shows** (`Terminal::Print`, `SetShellOutput`, `PutChar`, `NewLine`,
`ScrollUp`).

Output is laid out in rows of 40 characters: a line feed begins a new row, and so does the 40th
character of a row, at once. The window has 23 rows and moves up when it is full.

* `output_shows` — whatever is printed, in however many calls.
-/

import LaylaOS.Ui.Terminal

namespace LaylaOS.Ui

open LaylaOS.Lib

/-! ### The calls -/

namespace Screen

/-- The loop of `Print`: up to the first zero byte. -/
def print : Screen → List UInt8 → Screen
  | s, [] => s
  | s, c :: str => if c = 0 then s else (s.putChar c).print str

/-- The loop of `SetShellOutput`. -/
def setShellOutput (s : Screen) (str : List UInt8) : Screen := str.foldl putChar s

/-- The cells that `ScrollUp` touches, as pairs of a row and a column. -/
def scrollAccesses : List (Nat × Nat) :=
  (List.range (rows - 1)).flatMap (fun r =>
    (List.range cols).flatMap fun c => [(r, c), (r + 1, c)]) ++
    (List.range cols).map fun c => (rows - 1, c)

def newLineAccesses (s : Screen) : List (Nat × Nat) :=
  if s.cursorRow + 1 ≥ rows then scrollAccesses else []

/-- The cells that `PutChar` touches. -/
def putCharAccesses (s : Screen) (c : UInt8) : List (Nat × Nat) :=
  if c = 10 then s.newLineAccesses
  else if c = 8 then [(s.backspace.cursorRow, s.backspace.cursorCol)]
  else (s.cursorRow, s.cursorCol) :: if s.cursorCol + 1 ≥ cols then s.newLineAccesses else []

/-- The cells that `Draw` touches. -/
def drawAccesses : List (Nat × Nat) :=
  (List.range rows).flatMap fun r => (List.range cols).map fun c => (r, c)

/-- The cells that the loops of `Print` and `SetShellOutput` touch. -/
def putAllAccesses : Screen → List UInt8 → List (Nat × Nat)
  | _, [] => []
  | s, c :: text => s.putCharAccesses c ++ (s.putChar c).putAllAccesses text

end Screen

/-- A call that prints. -/
inductive Output
  /-- `Print(str)`, with the bytes from `str` on. -/
  | print (str : List UInt8)
  /-- `SetShellOutput(str, len)`. -/
  | setShellOutput (str : List UInt8)

namespace Output

/-- The characters of a call. -/
def text : Output → List UInt8
  | print str => str.takeWhile (· ≠ 0)
  | setShellOutput str => str

/-- The cells of `grid` and `colors` that a call touches. -/
def accesses (s : Screen) (call : Output) : List (Nat × Nat) :=
  s.putAllAccesses call.text ++ Screen.drawAccesses

end Output

/-- The call, on a terminal. -/
def Terminal.output (t : Terminal) : Output → Terminal
  | .print str => { t with screen := t.screen.print str }
  | .setShellOutput str => { t with screen := t.screen.setShellOutput str }

theorem Screen.print_eq (s : Screen) (str : List UInt8) :
    s.print str = (str.takeWhile (· ≠ 0)).foldl putChar s := by
  induction str generalizing s with
  | nil => rfl
  | cons c str ih =>
    rw [Screen.print]
    by_cases zero : c = 0
    · rw [if_pos zero, List.takeWhile_cons_of_neg (by simpa using zero)]
      rfl
    · rw [if_neg zero, ih, List.takeWhile_cons_of_pos (by simpa using zero)]
      rfl

theorem Terminal.output_screen (t : Terminal) (call : Output) :
    (t.output call).screen = call.text.foldl Screen.putChar t.screen := by
  cases call with
  | print str => exact t.screen.print_eq str
  | setShellOutput str => rfl

/-! ### The layout -/

/-- Rows of characters: those that are finished, and the last one. -/
structure Page where
  finished : List (List UInt8)
  last : List UInt8

namespace Page

def empty : Page := ⟨[], []⟩

/-- All rows, from the top. -/
def rows (p : Page) : List (List UInt8) := p.finished ++ [p.last]

/-- One more character: a new row begins at a line feed and right after the 40th character. -/
def put (p : Page) (c : UInt8) : Page :=
  if c = 10 then ⟨p.rows, []⟩
  else if p.last.length + 1 = 40 then ⟨p.finished ++ [p.last ++ [c]], []⟩
  else ⟨p.finished, p.last ++ [c]⟩

/-- The layout of a text. -/
def layout (text : List UInt8) : Page := text.foldl put empty

end Page

namespace Screen

/-- The window holds these rows, the last 23 of them, padded with spaces, and the cursor is in the last
one. -/
structure Holds (s : Screen) (page : List (List UInt8)) : Prop where
  grid : ∀ r < rows, ∀ c < cols,
    s.grid r c = ((page.drop (page.length - 23)).getD r []).getD c 32
  row : s.cursorRow + 1 = (page.drop (page.length - 23)).length

/-- The window shows the last rows of a page, and the cursor is behind its last character. -/
structure Shows (s : Screen) (p : Page) : Prop extends Holds s p.rows where
  col : s.cursorCol = p.last.length
  short : p.last.length < cols

theorem shown_getD (page : List (List UInt8)) (r : Nat) :
    (page.drop (page.length - 23)).getD r [] = page.getD (page.length - 23 + r) [] := by
  rw [List.getD_eq_getElem?_getD, List.getElem?_drop, ← List.getD_eq_getElem?_getD]

theorem getD_concat {α : Type} (items : List α) (item default : α) (k : Nat) :
    (items ++ [item]).getD k default = if k = items.length then item else items.getD k default := by
  rcases lt_trichotomy k items.length with before | rfl | behind
  · rw [List.getD_append _ _ _ _ before, if_neg before.ne]
  · rw [List.getD_append_right _ _ _ _ le_rfl, Nat.sub_self, if_pos rfl]
    rfl
  · rw [List.getD_eq_default _ _ (by simpa using behind), if_neg behind.ne', List.getD_eq_default _ _ behind.le]

theorem getD_concat_nil (page : List (List UInt8)) (k : Nat) : (page ++ [[]]).getD k [] = page.getD k [] := by
  rw [getD_concat]
  split_ifs with last
  · rw [List.getD_eq_default _ _ last.ge]
  · rfl

theorem blank_shows : blank.Shows Page.empty where
  grid := by
    intro r _ c _
    rcases r with _ | r <;> rfl
  row := rfl
  col := rfl
  short := by decide

section Step

variable {s : Screen} {page : List (List UInt8)}

theorem Holds.row_iff (holds : s.Holds page) (some : page ≠ []) (r : Nat) :
    page.length - 23 + r = page.length - 1 ↔ r = s.cursorRow := by
  have positive := List.length_pos_iff.mpr some
  have row := holds.row
  rw [List.length_drop] at row
  omega

theorem Holds.newLine (holds : s.Holds page) : s.newLine.Holds (page ++ [[]]) ∧ s.newLine.cursorCol = 0 := by
  have row := holds.row
  rw [List.length_drop] at row
  unfold Screen.newLine
  dsimp only
  split_ifs with full
  · unfold rows at full
    refine ⟨⟨fun r below c inside => ?_, ?_⟩, rfl⟩
    · have moved : page.length + 1 - 23 + r = page.length - 23 + (r + 1) := by omega
      rw [shown_getD, List.length_append, List.length_singleton, moved, getD_concat_nil, ← shown_getD]
      show (if r < 22 then s.grid (r + 1) c else if r = 22 then 32 else s.grid r c) = _
      unfold rows at below
      by_cases bottom : r < 22
      · rw [if_pos bottom, holds.grid (r + 1) (Nat.succ_lt_succ bottom) c inside]
      · have past : (page.drop (page.length - 23)).length ≤ r + 1 := by
          rw [List.length_drop]
          omega
        rw [if_neg bottom, if_pos (by omega), List.getD_eq_default _ _ past]
        rfl
    · rw [List.length_drop, List.length_append, List.length_singleton]
      show (if s.cursorRow + 1 > 0 then s.cursorRow + 1 - 1 else s.cursorRow + 1) + 1 = _
      rw [if_pos (Nat.succ_pos _)]
      omega
  · unfold rows at full
    refine ⟨⟨fun r below c inside => ?_, ?_⟩, rfl⟩
    · have whole : page.length + 1 - 23 = page.length - 23 := by omega
      rw [shown_getD, List.length_append, List.length_singleton, whole, getD_concat_nil, ← shown_getD]
      exact holds.grid r below c inside
    · rw [List.length_drop, List.length_append, List.length_singleton]
      show s.cursorRow + 1 + 1 = _
      omega

theorem Shows.set {p : Page} (shows : s.Shows p) (c : UInt8) :
    (s.set c).Holds (p.finished ++ [p.last ++ [c]]) := by
  have length : (p.finished ++ [p.last ++ [c]]).length = p.rows.length := by
    simp [Page.rows]
  constructor
  · intro r below col inside
    have last : p.rows.length - 1 = p.finished.length := by simp [Page.rows]
    have here := shows.row_iff (by simp [Page.rows]) r
    rw [last] at here
    have before := shows.grid r below col inside
    rw [shown_getD] at before ⊢
    rw [length, getD_concat]
    rw [show p.rows.getD _ [] = _ from getD_concat ..] at before
    show (if r = s.cursorRow ∧ col = s.cursorCol then c else s.grid r col) = _
    rw [shows.col, before]
    by_cases cursor : r = s.cursorRow
    · rw [if_pos (here.mpr cursor), if_pos (here.mpr cursor), getD_concat]
      simp only [cursor, true_and]
    · rw [if_neg (mt here.mp cursor), if_neg (mt here.mp cursor), if_neg fun both => cursor both.1]
  · rw [List.length_drop, length, ← List.length_drop]
    exact shows.row

theorem Shows.putChar {p : Page} (shows : s.Shows p) {c : UInt8} (forward : c ≠ 8) :
    (s.putChar c).Shows (p.put c) := by
  have set := shows.set c
  unfold Screen.putChar Page.put
  by_cases feed : c = 10
  · obtain ⟨holds, col⟩ := shows.toHolds.newLine
    rw [if_pos feed, if_pos feed]
    exact ⟨holds, col, Nat.succ_pos _⟩
  rw [if_neg feed, if_neg feed, if_neg forward]
  -- the cursor moves on first, and a new row begins from there
  let moved : Screen := { s.set c with cursorCol := (s.set c).cursorCol + 1 }
  have holds : moved.Holds (p.finished ++ [p.last ++ [c]]) := ⟨set.grid, set.row⟩
  have next : moved.cursorCol = p.last.length + 1 := congrArg (· + 1) shows.col
  have short := shows.short
  show Shows (if moved.cursorCol ≥ cols then moved.newLine else moved) _
  rw [next]
  unfold cols at short ⊢
  by_cases full : p.last.length + 1 = 40
  · obtain ⟨below, col⟩ := holds.newLine
    rw [if_pos full.ge, if_pos full]
    exact ⟨below, col, Nat.succ_pos _⟩
  · rw [if_neg (by omega), if_neg full]
    refine ⟨holds, ?_, ?_⟩
    · rw [next, List.length_append, List.length_singleton]
    · rw [List.length_append, List.length_singleton]
      exact lt_of_le_of_ne short full

/-! ### The cells -/

/-- A cell of the window. -/
def InRange (cell : Nat × Nat) : Prop := cell.1 < rows ∧ cell.2 < cols

theorem scrollAccesses_inRange : ∀ cell ∈ scrollAccesses, InRange cell := by
  intro cell mem
  simp only [scrollAccesses, List.mem_append, List.mem_flatMap, List.mem_map, List.mem_range,
    List.mem_cons, List.not_mem_nil, or_false] at mem
  rcases mem with ⟨r, above, c, inside, rfl | rfl⟩ | ⟨c, inside, rfl⟩
  · exact ⟨above.trans (by decide), inside⟩
  · exact ⟨Nat.add_lt_of_lt_sub above, inside⟩
  · exact ⟨(by decide : rows - 1 < rows), inside⟩

theorem newLineAccesses_inRange (s : Screen) : ∀ cell ∈ s.newLineAccesses, InRange cell := by
  unfold newLineAccesses
  split_ifs
  · exact scrollAccesses_inRange
  · exact List.forall_mem_nil _

theorem OnGrid.putCharAccesses (on : s.OnGrid) (c : UInt8) : ∀ cell ∈ s.putCharAccesses c, InRange cell := by
  unfold Screen.putCharAccesses
  split_ifs
  · exact newLineAccesses_inRange s
  · exact List.forall_mem_singleton.mpr ⟨on.backspace.row, on.backspace.col⟩
  · exact List.forall_mem_cons.mpr ⟨⟨on.row, on.col⟩, newLineAccesses_inRange s⟩
  · exact List.forall_mem_singleton.mpr ⟨on.row, on.col⟩

theorem drawAccesses_inRange : ∀ cell ∈ drawAccesses, InRange cell := by
  intro cell mem
  simp only [drawAccesses, List.mem_flatMap, List.mem_map, List.mem_range] at mem
  obtain ⟨r, below, c, inside, rfl⟩ := mem
  exact ⟨below, inside⟩

theorem OnGrid.foldl_putChar (on : s.OnGrid) (text : List UInt8) : (text.foldl Screen.putChar s).OnGrid :=
  List.foldlRecOn text Screen.putChar on fun _ on c _ => on.putChar c

theorem OnGrid.putAllAccesses (on : s.OnGrid) (text : List UInt8) :
    ∀ cell ∈ s.putAllAccesses text, InRange cell := by
  induction text generalizing s with
  | nil => exact List.forall_mem_nil _
  | cons c text ih =>
    exact List.forall_mem_append.mpr ⟨on.putCharAccesses c, ih (on.putChar c)⟩

end Step

theorem Shows.foldl_putChar {s : Screen} {p : Page} (shows : s.Shows p) {text : List UInt8}
    (forward : 8 ∉ text) : (text.foldl Screen.putChar s).Shows (text.foldl Page.put p) := by
  induction text generalizing s p with
  | nil => exact shows
  | cons c text ih =>
    obtain ⟨other, rest⟩ := List.ne_and_not_mem_of_not_mem_cons forward
    exact ih (shows.putChar other.symm) rest

end Screen

/-- **The terminal shows the last 23 rows of its output**, whatever was printed in however many calls,
and no cell outside the window is touched. -/
theorem output_shows (calls : List Output) (forward : ∀ call ∈ calls, 8 ∉ call.text) :
    (calls.foldl Terminal.output .new).screen.Shows (Page.layout (calls.flatMap Output.text)) ∧
      ∀ before call after, calls = before ++ call :: after →
        ∀ cell ∈ call.accesses (before.foldl Terminal.output .new).screen, Screen.InRange cell := by
  have screens (calls : List Output) : (calls.foldl Terminal.output .new).screen =
      (calls.flatMap Output.text).foldl Screen.putChar .blank := by
    induction calls using List.reverseRecOn with
    | nil => rfl
    | append_singleton calls call ih =>
      rw [List.foldl_concat, Terminal.output_screen, ih, List.flatMap_append, List.foldl_append,
        List.flatMap_singleton]
  constructor
  · rw [screens]
    refine Screen.blank_shows.foldl_putChar fun back => ?_
    obtain ⟨call, member, inside⟩ := List.mem_flatMap.mp back
    exact forward call member inside
  · intro before call after _
    have on : Screen.blank.OnGrid := ⟨by decide, by decide⟩
    rw [screens]
    exact List.forall_mem_append.mpr
      ⟨(on.foldl_putChar _).putAllAccesses call.text, Screen.drawAccesses_inRange⟩

/-- A line and the beginning of another one, in two calls. -/
theorem output_shows_two :
    ([.print [104, 105, 10, 0, 99], .setShellOutput [33]].foldl Terminal.output .new).screen.Shows
      ⟨[[104, 105]], [33]⟩ :=
  (output_shows [.print [104, 105, 10, 0, 99], .setShellOutput [33]] (by decide)).1

end LaylaOS.Ui
