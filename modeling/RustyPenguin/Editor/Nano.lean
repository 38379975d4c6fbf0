import RustyPenguin.Editor.Cursor
import RustyPenguin.Foundation.Place

/-!
# The editor of the terminal

The editor of the terminal keeps the bytes of a file as lines, and a cursor in one of them. Keys
come as bytes: an escape takes the next byte with it, or the next two, and other bytes are written at
the cursor. Ctrl+S writes the lines back, joined. Where the program would panic the model has no
result.

From every file and for every sequence of bytes, the editor does not panic, and it does on its lines
what the keys mean on a text with a cursor: what it saves, where its cursor is and what it holds are
those of the text, and its cursor is in the part of the lines that the window shows
(`nano_refines`).
-/

set_option autoImplicit false

namespace RustyPenguin.Editor

open Foundation

/-! ## The editor -/

structure EditorState where
  filename : String
  lines : List (List UInt8)
  cursorRow : Nat
  cursorCol : Nat
  scrollTop : Nat
  modified : Bool
  /-- 0 normally, 1 behind an escape, 2 behind an escape and a bracket. -/
  escState : UInt8

namespace EditorState

/-- The loop of `new` over the bytes of a file. -/
def newLoop (lines : List (List UInt8)) (cur : List UInt8) : List UInt8 → List (List UInt8)
  | [] => lines ++ [cur]
  | b :: data => if b = 10 then newLoop (lines ++ [cur]) [] data else newLoop lines (cur ++ [b]) data

def new (filename : String) (data : List UInt8) : EditorState where
  filename := filename
  lines := newLoop [] [] data
  cursorRow := 0
  cursorCol := 0
  scrollTop := 0
  modified := false
  escState := 0

def lineLen (ed : EditorState) (row : Nat) : Nat := (ed.lines[row]?.map List.length).getD 0

def clampCol (ed : EditorState) : EditorState :=
  { ed with cursorCol := min ed.cursorCol (ed.lineLen ed.cursorRow) }

def clampScroll (ed : EditorState) (termRows : Nat) : EditorState :=
  let content := termRows - 2
  if ed.cursorRow < ed.scrollTop then { ed with scrollTop := ed.cursorRow }
  else if ed.scrollTop + content ≤ ed.cursorRow then
    { ed with scrollTop := ed.cursorRow - content + 1 }
  else ed

def moveUp (ed : EditorState) : EditorState :=
  if 0 < ed.cursorRow then { ed with cursorRow := ed.cursorRow - 1 }.clampCol else ed

def moveDown (ed : EditorState) : EditorState :=
  if ed.cursorRow + 1 < ed.lines.length then { ed with cursorRow := ed.cursorRow + 1 }.clampCol
  else ed

def moveLeft (ed : EditorState) : EditorState :=
  if 0 < ed.cursorCol then { ed with cursorCol := ed.cursorCol - 1 }
  else if 0 < ed.cursorRow then
    { ed with cursorRow := ed.cursorRow - 1, cursorCol := ed.lineLen (ed.cursorRow - 1) }
  else ed

def moveRight (ed : EditorState) : EditorState :=
  if ed.cursorCol < ed.lineLen ed.cursorRow then { ed with cursorCol := ed.cursorCol + 1 }
  else if ed.cursorRow + 1 < ed.lines.length then
    { ed with cursorRow := ed.cursorRow + 1, cursorCol := 0 }
  else ed

def insertChar (ed : EditorState) (b : UInt8) : Option EditorState :=
  match ed.lines[ed.cursorRow]? with
  | none => some ed
  | some line =>
    if ed.cursorCol ≤ line.length then
      some { ed with
        lines := ed.lines.set ed.cursorRow (line.insertIdx ed.cursorCol b)
        cursorCol := ed.cursorCol + 1
        modified := true }
    else none

def backspace (ed : EditorState) : Option EditorState :=
  if 0 < ed.cursorCol then
    match ed.lines[ed.cursorRow]? with
    | none => none
    | some line =>
      if ed.cursorCol - 1 < line.length then
        some { ed with
          lines := ed.lines.set ed.cursorRow (line.eraseIdx (ed.cursorCol - 1))
          cursorCol := ed.cursorCol - 1
          modified := true }
      else none
  else if 0 < ed.cursorRow then
    match ed.lines[ed.cursorRow]? with
    | none => none
    | some curLine =>
      let lines := ed.lines.eraseIdx ed.cursorRow
      match lines[ed.cursorRow - 1]? with
      | none => none
      | some line =>
        some { ed with
          lines := lines.set (ed.cursorRow - 1) (line ++ curLine)
          cursorRow := ed.cursorRow - 1
          cursorCol := line.length
          modified := true }
  else some ed

def newline (ed : EditorState) : Option EditorState :=
  match ed.lines[ed.cursorRow]? with
  | none => some ed
  | some line =>
    if ed.cursorCol ≤ line.length then
      some { ed with
        lines := (ed.lines.set ed.cursorRow (line.take ed.cursorCol)).insertIdx (ed.cursorRow + 1)
          (line.drop ed.cursorCol)
        cursorRow := ed.cursorRow + 1
        cursorCol := 0
        modified := true }
    else none

def toBytes (ed : EditorState) : List UInt8 := [10].intercalate ed.lines

/-- The key that an escape sequence ends with. -/
def csi (ed : EditorState) (b : UInt8) : EditorState :=
  if b = 0x41 then ed.moveUp
  else if b = 0x42 then ed.moveDown
  else if b = 0x43 then ed.moveRight
  else if b = 0x44 then ed.moveLeft
  else if b = 0x48 then { ed with cursorCol := 0 }
  else if b = 0x46 then { ed with cursorCol := ed.lineLen ed.cursorRow }
  else ed

/-- A key outside of an escape sequence. -/
def key (ed : EditorState) (b : UInt8) : Option EditorState :=
  if b = 0x1B then some { ed with escState := 1 }
  else if b = 0x13 ∨ b = 0x18 ∨ b = 0x11 then some ed
  else if b = 0x0D ∨ b = 0x0A then ed.newline
  else if b = 0x08 ∨ b = 0x7F then ed.backspace
  else if 0x20 ≤ b then ed.insertChar b
  else some ed

end EditorState

/-- The terminal, as far as the editor concerns it: the editor while it is open, and the files that
were written. -/
structure Session where
  editor : Option EditorState
  saved : List (String × List UInt8)

/-- A byte goes to the editor, in a terminal of `rows` rows. -/
def Session.sendKeyEditor (rows : Nat) (s : Session) (b : UInt8) : Option Session :=
  match s.editor with
  | none => some s
  | some ed =>
    if ed.escState = 1 then
      some { s with editor := some { ed with escState := if b = 0x5B then 2 else 0 } }
    else if ed.escState = 2 then
      some { s with editor := some (({ ed with escState := 0 }.csi b).clampScroll rows) }
    else
      (ed.key b).map fun ed =>
        let ed := ed.clampScroll rows
        if b = 0x13 then
          { editor := some { ed with modified := false }
            saved := s.saved ++ [(ed.filename, ed.toBytes)] }
        else if b = 0x18 ∨ b = 0x11 then { s with editor := none }
        else { s with editor := some ed }

/-- One byte after another. -/
def Session.run (rows : Nat) : List UInt8 → Session → Option Session
  | [], s => some s
  | b :: keys, s => (s.sendKeyEditor rows b).bind (Session.run rows keys)

/-! ## What the keys mean -/

/-- A text that is edited: the escape sequence so far, and what was saved. -/
structure Sheet where
  place : Place UInt8
  esc : UInt8
  opened : Bool
  saved : List (List UInt8)

namespace Sheet

/-- The key that an escape sequence ends with. -/
def arrow (place : Place UInt8) (b : UInt8) : Place UInt8 :=
  if b = 0x41 then place.up 10
  else if b = 0x42 then place.down 10
  else if b = 0x43 then place.right
  else if b = 0x44 then place.left
  else if b = 0x48 then place.home 10
  else if b = 0x46 then place.toEnd 10
  else place

/-- A byte outside of an escape sequence. -/
def write (place : Place UInt8) (b : UInt8) : Place UInt8 :=
  if b = 0x0D ∨ b = 0x0A then place.insert 10
  else if b = 0x08 ∨ b = 0x7F then place.backspace
  else if 0x20 ≤ b then place.insert b
  else place

def press (s : Sheet) (b : UInt8) : Sheet :=
  if ¬ s.opened then s
  else if s.esc = 1 then { s with esc := if b = 0x5B then 2 else 0 }
  else if s.esc = 2 then { s with place := arrow s.place b, esc := 0 }
  else if b = 0x1B then { s with esc := 1 }
  else if b = 0x13 then { s with saved := s.saved ++ [s.place.text] }
  else if b = 0x18 ∨ b = 0x11 then { s with opened := false }
  else { s with place := write s.place b }

end Sheet

/-! ## The lines do what the text does -/

/-- The editor holds a page. -/
structure Shows (ed : EditorState) (p : Page UInt8) : Prop where
  lines : ed.lines = p.lines
  cursorRow : ed.cursorRow = p.above.length
  cursorCol : ed.cursorCol = p.front.length

/-- The cursor is among the lines that the window shows, above the last two rows. -/
def InView (rows : Nat) (ed : EditorState) : Prop :=
  ed.scrollTop ≤ ed.cursorRow ∧ ed.cursorRow < ed.scrollTop + (rows - 2)

theorem inView_clampScroll {rows : Nat} (roomy : 2 < rows) (ed : EditorState) :
    InView rows (ed.clampScroll rows) := by
  rw [EditorState.clampScroll]
  split
  · exact ⟨Nat.le_refl _, Nat.lt_add_of_pos_right (by omega)⟩
  · split
    · constructor
      · show ed.cursorRow - (rows - 2) + 1 ≤ ed.cursorRow
        omega
      · show ed.cursorRow < ed.cursorRow - (rows - 2) + 1 + (rows - 2)
        omega
    · exact ⟨by omega, by omega⟩

theorem insertIdx_length (front back : List UInt8) (b : UInt8) :
    (front ++ back).insertIdx front.length b = front ++ b :: back := by
  induction front with
  | nil => rfl
  | cons c front ih => exact congrArg (c :: ·) ih

namespace Shows

variable {ed : EditorState} {p : Page UInt8}

theorem clampScroll (shows : Shows ed p) (rows : Nat) : Shows (ed.clampScroll rows) p := by
  obtain ⟨lines, row, col⟩ := shows
  rw [EditorState.clampScroll]
  split
  · exact ⟨lines, row, col⟩
  · split
    · exact ⟨lines, row, col⟩
    · exact ⟨lines, row, col⟩

theorem there (shows : Shows ed p) : ed.lines[ed.cursorRow]? = some (p.front ++ p.back) := by
  rw [shows.lines, shows.cursorRow]
  exact getElem?_middle _ _ _

theorem lineLen (shows : Shows ed p) :
    ed.lineLen ed.cursorRow = p.front.length + p.back.length := by
  rw [EditorState.lineLen, shows.there]
  exact List.length_append

theorem length (shows : Shows ed p) : ed.lines.length = p.above.length + 1 + p.below.length := by
  rw [shows.lines, Page.lines, List.length_append, List.length_cons]
  omega

theorem home (shows : Shows ed p) : Shows { ed with cursorCol := 0 } p.home := by
  obtain ⟨lines, row, col⟩ := shows
  exact ⟨lines, row, rfl⟩

theorem toEnd (shows : Shows ed p) :
    Shows { ed with cursorCol := ed.lineLen ed.cursorRow } p.toEnd := by
  refine ⟨?_, shows.cursorRow, ?_⟩
  · show ed.lines = p.above ++ (p.front ++ p.back ++ []) :: p.below
    rw [List.append_nil]
    exact shows.lines
  · show ed.lineLen ed.cursorRow = (p.front ++ p.back).length
    rw [shows.lineLen, List.length_append]

/-- To the column of the cursor in another line, or to its end. -/
theorem clampCol {above below : List (List UInt8)} {line : List UInt8} {row : Nat}
    (lines : ed.lines = above ++ line :: below) (there : row = above.length) (col : Nat)
    (same : ed.cursorCol = col) :
    Shows ({ ed with cursorRow := row } : EditorState).clampCol
      ⟨above, line.take (min col line.length), line.drop (min col line.length), below⟩ := by
  have len : ({ ed with cursorRow := row } : EditorState).lineLen row = line.length := by
    show (ed.lines[row]?.map List.length).getD 0 = line.length
    rw [lines, there, getElem?_middle]
    rfl
  refine ⟨?_, there, ?_⟩
  · show ed.lines = above ++ (line.take _ ++ line.drop _) :: below
    rw [List.take_append_drop]
    exact lines
  · show min ed.cursorCol (({ ed with cursorRow := row } : EditorState).lineLen row) =
      (line.take (min col line.length)).length
    rw [len, same, List.length_take]
    omega

theorem moveUp (shows : Shows ed p) : Shows ed.moveUp p.up := by
  obtain ⟨above, front, back, below⟩ := p
  rw [EditorState.moveUp, Page.up, shows.cursorRow]
  rcases List.eq_nil_or_concat' above with rfl | ⟨above, line, rfl⟩
  · exact shows
  · have lines : ed.lines = above ++ line :: (front ++ back) :: below := by
      rw [shows.lines, Page.lines, List.append_assoc]
      rfl
    have row : (above ++ [line]).length = above.length + 1 := List.length_append
    rw [if_pos (by rw [row]; exact Nat.succ_pos _)]
    simp only [List.getLast?_concat, List.dropLast_concat]
    refine clampCol lines ?_ front.length shows.cursorCol
    show (above ++ [line]).length - 1 = above.length
    rw [row, Nat.add_sub_cancel]

theorem moveDown (shows : Shows ed p) : Shows ed.moveDown p.down := by
  obtain ⟨above, front, back, below⟩ := p
  have length := shows.length
  have row := shows.cursorRow
  rw [EditorState.moveDown, Page.down]
  cases below with
  | nil =>
    rw [if_neg (by rw [length, row]; exact Nat.lt_irrefl _)]
    exact shows
  | cons line below =>
    have lines : ed.lines = (above ++ [front ++ back]) ++ line :: below := by
      rw [shows.lines, Page.lines, List.append_assoc]
      rfl
    rw [if_pos (by rw [length, row, List.length_cons]; exact Nat.lt_add_of_pos_right (Nat.succ_pos _))]
    refine clampCol lines ?_ front.length shows.cursorCol
    rw [List.length_append, row]
    rfl

theorem moveLeft (shows : Shows ed p) : Shows ed.moveLeft p.left := by
  obtain ⟨above, front, back, below⟩ := p
  rw [EditorState.moveLeft, Page.left]
  rcases List.eq_nil_or_concat' front with rfl | ⟨front, c, rfl⟩
  · have col : ed.cursorCol = 0 := shows.cursorCol
    rw [if_neg (by rw [col]; exact Nat.lt_irrefl 0)]
    rcases List.eq_nil_or_concat' above with rfl | ⟨above, line, rfl⟩
    · have row : ed.cursorRow = 0 := shows.cursorRow
      rw [if_neg (by rw [row]; exact Nat.lt_irrefl 0)]
      exact shows
    · have lines : ed.lines = above ++ line :: back :: below := by
        rw [shows.lines, Page.lines, List.append_assoc]
        rfl
      have row : ed.cursorRow = above.length + 1 := shows.cursorRow.trans List.length_append
      have before : ed.cursorRow - 1 = above.length := by
        rw [row, Nat.add_sub_cancel]
      rw [if_pos (by rw [row]; exact Nat.succ_pos _)]
      simp only [List.getLast?_nil, List.getLast?_concat, List.dropLast_concat]
      refine ⟨?_, before, ?_⟩
      · show ed.lines = above ++ (line ++ []) :: back :: below
        rw [List.append_nil]
        exact lines
      · show ed.lineLen (ed.cursorRow - 1) = line.length
        rw [EditorState.lineLen, lines, before, getElem?_middle]
        rfl
  · have col : ed.cursorCol = front.length + 1 := shows.cursorCol.trans List.length_append
    rw [if_pos (by rw [col]; exact Nat.succ_pos _)]
    simp only [List.getLast?_concat, List.dropLast_concat]
    refine ⟨?_, shows.cursorRow, ?_⟩
    · show ed.lines = above ++ (front ++ c :: back) :: below
      rw [shows.lines, Page.lines, List.append_assoc]
      rfl
    · show ed.cursorCol - 1 = front.length
      rw [col, Nat.add_sub_cancel]

theorem moveRight (shows : Shows ed p) : Shows ed.moveRight p.right := by
  obtain ⟨above, front, back, below⟩ := p
  have len : ed.lineLen ed.cursorRow = front.length + back.length := shows.lineLen
  have col : ed.cursorCol = front.length := shows.cursorCol
  have row : ed.cursorRow = above.length := shows.cursorRow
  have length := shows.length
  rw [EditorState.moveRight, Page.right, len]
  cases back with
  | nil =>
    rw [if_neg (by rw [col]; exact Nat.lt_irrefl _)]
    cases below with
    | nil =>
      rw [if_neg (by rw [length, row]; exact Nat.lt_irrefl _)]
      exact shows
    | cons line below =>
      rw [if_pos (by rw [length, row]; exact Nat.lt_add_of_pos_right (Nat.succ_pos _))]
      refine ⟨?_, ?_, rfl⟩
      · show ed.lines = (above ++ [front]) ++ line :: below
        rw [shows.lines, Page.lines, List.append_assoc, List.append_nil]
        rfl
      · show ed.cursorRow + 1 = (above ++ [front]).length
        rw [row, List.length_append]
        rfl
  | cons c back =>
    rw [if_pos (by rw [col]; exact Nat.lt_add_of_pos_right (Nat.succ_pos _))]
    refine ⟨?_, row, ?_⟩
    · show ed.lines = above ++ (front ++ [c] ++ back) :: below
      rw [shows.lines, Page.lines, List.append_assoc]
      rfl
    · show ed.cursorCol + 1 = (front ++ [c]).length
      rw [col, List.length_append]
      rfl

theorem insertChar (shows : Shows ed p) (b : UInt8) :
    ∃ ed', ed.insertChar b = some ed' ∧ Shows ed' (p.insert b) ∧ ed'.escState = ed.escState ∧
      ed'.filename = ed.filename := by
  obtain ⟨above, front, back, below⟩ := p
  have col : ed.cursorCol = front.length := shows.cursorCol
  have fits : ed.cursorCol ≤ (front ++ back).length := by
    rw [col, List.length_append]
    exact Nat.le_add_right _ _
  have inserted : (front ++ back).insertIdx ed.cursorCol b = front ++ [b] ++ back := by
    rw [col, insertIdx_length, List.append_assoc]
    rfl
  rw [EditorState.insertChar, shows.there]
  dsimp only
  rw [if_pos fits]
  refine ⟨_, rfl, ⟨?_, shows.cursorRow, ?_⟩, rfl, rfl⟩
  · show ed.lines.set ed.cursorRow ((front ++ back).insertIdx ed.cursorCol b) = _
    rw [inserted, shows.lines, shows.cursorRow]
    exact set_middle _ _ _ _
  · show ed.cursorCol + 1 = (front ++ [b]).length
    rw [col, List.length_append]
    rfl

theorem newline (shows : Shows ed p) :
    ∃ ed', ed.newline = some ed' ∧ Shows ed' p.split ∧ ed'.escState = ed.escState ∧
      ed'.filename = ed.filename := by
  obtain ⟨above, front, back, below⟩ := p
  have col : ed.cursorCol = front.length := shows.cursorCol
  have row : ed.cursorRow = above.length := shows.cursorRow
  have fits : ed.cursorCol ≤ (front ++ back).length := by
    rw [col, List.length_append]
    exact Nat.le_add_right _ _
  rw [EditorState.newline, shows.there]
  dsimp only
  rw [if_pos fits]
  refine ⟨_, rfl, ⟨?_, ?_, rfl⟩, rfl, rfl⟩
  · show (ed.lines.set ed.cursorRow ((front ++ back).take ed.cursorCol)).insertIdx
      (ed.cursorRow + 1) ((front ++ back).drop ed.cursorCol) = (above ++ [front]) ++ back :: below
    rw [col, List.take_left, List.drop_left, shows.lines, row]
    show ((above ++ (front ++ back) :: below).set above.length front).insertIdx
      (above.length + 1) back = _
    rw [set_middle, insertIdx_middle, List.append_assoc]
    rfl
  · show ed.cursorRow + 1 = (above ++ [front]).length
    rw [row, List.length_append]
    rfl

theorem backspace (shows : Shows ed p) :
    ∃ ed', ed.backspace = some ed' ∧ Shows ed' p.backspace ∧ ed'.escState = ed.escState ∧
      ed'.filename = ed.filename := by
  obtain ⟨above, front, back, below⟩ := p
  rw [EditorState.backspace, Page.backspace]
  rcases List.eq_nil_or_concat' front with rfl | ⟨front, c, rfl⟩
  · have col : ed.cursorCol = 0 := shows.cursorCol
    rw [if_neg (by rw [col]; exact Nat.lt_irrefl 0)]
    rcases List.eq_nil_or_concat' above with rfl | ⟨above, line, rfl⟩
    · have row : ed.cursorRow = 0 := shows.cursorRow
      rw [if_neg (by rw [row]; exact Nat.lt_irrefl 0)]
      exact ⟨ed, rfl, shows, rfl, rfl⟩
    · have row : ed.cursorRow = (above ++ [line]).length := shows.cursorRow
      have size : (above ++ [line]).length = above.length + 1 := List.length_append
      have before : ed.cursorRow - 1 = above.length := by
        rw [row, size, Nat.add_sub_cancel]
      have erased : ed.lines.eraseIdx ed.cursorRow = above ++ line :: below := by
        rw [shows.lines, row, Page.lines, eraseIdx_middle, List.append_assoc]
        rfl
      have there := shows.there
      rw [if_pos (by rw [row, size]; exact Nat.succ_pos _), there]
      dsimp only
      rw [erased, before, getElem?_middle]
      dsimp only
      simp only [List.getLast?_nil, List.getLast?_concat, List.dropLast_concat]
      refine ⟨_, rfl, ⟨?_, rfl, rfl⟩, rfl, rfl⟩
      exact set_middle _ _ _ _
  · have col : ed.cursorCol = front.length + 1 := shows.cursorCol.trans List.length_append
    have inside : ed.cursorCol - 1 < (front ++ [c] ++ back).length := by
      rw [col, List.length_append, List.length_append, List.length_singleton]
      omega
    have removed : (front ++ [c] ++ back).eraseIdx (ed.cursorCol - 1) = front ++ back := by
      rw [col, Nat.add_sub_cancel, List.append_assoc]
      exact eraseIdx_middle front back c
    rw [if_pos (by rw [col]; exact Nat.succ_pos _), shows.there]
    dsimp only
    rw [if_pos inside]
    simp only [List.getLast?_concat, List.dropLast_concat]
    refine ⟨_, rfl, ⟨?_, shows.cursorRow, ?_⟩, rfl, rfl⟩
    · show ed.lines.set ed.cursorRow ((front ++ [c] ++ back).eraseIdx (ed.cursorCol - 1)) = _
      rw [removed, shows.lines, shows.cursorRow]
      exact set_middle _ _ _ _
    · show ed.cursorCol - 1 = front.length
      rw [col, Nat.add_sub_cancel]

end Shows

/-! ## Runs -/

/-- A page is behind the editor, with the text and the cursor of the sheet. -/
def Edits (ed : EditorState) (place : Place UInt8) : Prop :=
  ∃ p : Page UInt8, Shows ed p ∧ p.Clean 10 ∧ p.place 10 = place

/-- The parts of an editor that its keys leave alone. -/
def Beside (ed ed' : EditorState) : Prop :=
  ed'.escState = ed.escState ∧ ed'.filename = ed.filename

theorem beside_clampScroll (ed : EditorState) (rows : Nat) : Beside ed (ed.clampScroll rows) := by
  rw [EditorState.clampScroll]
  split
  · exact ⟨rfl, rfl⟩
  · split
    · exact ⟨rfl, rfl⟩
    · exact ⟨rfl, rfl⟩

theorem Edits.clampScroll {ed : EditorState} {place : Place UInt8} (edits : Edits ed place)
    (rows : Nat) : Edits (ed.clampScroll rows) place := by
  obtain ⟨p, shows, clean, same⟩ := edits
  exact ⟨p, shows.clampScroll rows, clean, same⟩

theorem Edits.escState {ed : EditorState} {place : Place UInt8} (edits : Edits ed place)
    (esc : UInt8) : Edits { ed with escState := esc } place := by
  obtain ⟨p, shows, clean, same⟩ := edits
  exact ⟨p, ⟨shows.lines, shows.cursorRow, shows.cursorCol⟩, clean, same⟩

theorem Edits.toBytes {ed : EditorState} {place : Place UInt8} (edits : Edits ed place) :
    ed.toBytes = place.text := by
  obtain ⟨p, shows, _, rfl⟩ := edits
  rw [EditorState.toBytes, shows.lines]
  exact Page.intercalate_lines 10 p

/-- **The key of an escape sequence** moves the cursor over the text. -/
theorem edits_csi {ed : EditorState} {place : Place UInt8} (edits : Edits ed place) (b : UInt8) :
    Edits (ed.csi b) (Sheet.arrow place b) ∧ Beside ed (ed.csi b) := by
  obtain ⟨p, shows, clean, rfl⟩ := edits
  rw [EditorState.csi, Sheet.arrow]
  by_cases up : b = 0x41
  · rw [if_pos up, if_pos up]
    refine ⟨⟨p.up, shows.moveUp, clean.up, Page.place_up clean⟩, ?_⟩
    rw [EditorState.moveUp]
    split
    · exact ⟨rfl, rfl⟩
    · exact ⟨rfl, rfl⟩
  rw [if_neg up, if_neg up]
  by_cases down : b = 0x42
  · rw [if_pos down, if_pos down]
    refine ⟨⟨p.down, shows.moveDown, clean.down, Page.place_down clean⟩, ?_⟩
    rw [EditorState.moveDown]
    split
    · exact ⟨rfl, rfl⟩
    · exact ⟨rfl, rfl⟩
  rw [if_neg down, if_neg down]
  by_cases right : b = 0x43
  · rw [if_pos right, if_pos right]
    refine ⟨⟨p.right, shows.moveRight, clean.right, Page.place_right⟩, ?_⟩
    rw [EditorState.moveRight]
    split
    · exact ⟨rfl, rfl⟩
    · split
      · exact ⟨rfl, rfl⟩
      · exact ⟨rfl, rfl⟩
  rw [if_neg right, if_neg right]
  by_cases left : b = 0x44
  · rw [if_pos left, if_pos left]
    refine ⟨⟨p.left, shows.moveLeft, clean.left, Page.place_left⟩, ?_⟩
    rw [EditorState.moveLeft]
    split
    · exact ⟨rfl, rfl⟩
    · split
      · exact ⟨rfl, rfl⟩
      · exact ⟨rfl, rfl⟩
  rw [if_neg left, if_neg left]
  by_cases home : b = 0x48
  · rw [if_pos home, if_pos home]
    exact ⟨⟨p.home, shows.home, clean.home, Page.place_home clean⟩, rfl, rfl⟩
  rw [if_neg home, if_neg home]
  by_cases toEnd : b = 0x46
  · rw [if_pos toEnd, if_pos toEnd]
    exact ⟨⟨p.toEnd, shows.toEnd, clean.toEnd, Page.place_toEnd clean⟩, rfl, rfl⟩
  · rw [if_neg toEnd, if_neg toEnd]
    exact ⟨⟨p, shows, clean, rfl⟩, rfl, rfl⟩

/-- **A key that writes** changes the text at the cursor, and does not panic. -/
theorem edits_key {ed : EditorState} {place : Place UInt8} (edits : Edits ed place) {b : UInt8}
    (plain : b ≠ 0x1B) (writes : ¬(b = 0x13 ∨ b = 0x18 ∨ b = 0x11)) :
    ∃ ed', ed.key b = some ed' ∧ Edits ed' (Sheet.write place b) ∧ Beside ed ed' := by
  obtain ⟨p, shows, clean, rfl⟩ := edits
  rw [EditorState.key, if_neg plain, if_neg writes, Sheet.write]
  by_cases newline : b = 0x0D ∨ b = 0x0A
  · rw [if_pos newline, if_pos newline]
    obtain ⟨ed', broken, shows', beside⟩ := shows.newline
    exact ⟨ed', broken, ⟨p.split, shows', clean.split, Page.place_split⟩, beside⟩
  rw [if_neg newline, if_neg newline]
  by_cases back : b = 0x08 ∨ b = 0x7F
  · rw [if_pos back, if_pos back]
    obtain ⟨ed', removed, shows', beside⟩ := shows.backspace
    exact ⟨ed', removed, ⟨p.backspace, shows', clean.backspace, Page.place_backspace⟩, beside⟩
  rw [if_neg back, if_neg back]
  by_cases printable : 0x20 ≤ b
  · rw [if_pos printable, if_pos printable]
    obtain ⟨ed', inserted, shows', beside⟩ := shows.insertChar b
    have other : b ≠ 10 := fun same => newline (.inr same)
    exact ⟨ed', inserted, ⟨p.insert b, shows', clean.insert other, Page.place_insert b⟩, beside⟩
  · rw [if_neg printable, if_neg printable]
    exact ⟨ed, rfl, ⟨p, shows, clean, rfl⟩, rfl, rfl⟩

/-- After a key, the window follows the cursor. -/
theorem Edits.settle {rows : Nat} (roomy : 2 < rows) {ed₀ ed : EditorState} {place : Place UInt8}
    (edits : Edits ed place) (beside : Beside ed₀ ed) :
    Edits (ed.clampScroll rows) place ∧ (ed.clampScroll rows).escState = ed₀.escState ∧
      (ed.clampScroll rows).filename = ed₀.filename ∧ InView rows (ed.clampScroll rows) := by
  obtain ⟨esc, name⟩ := beside_clampScroll ed rows
  exact ⟨edits.clampScroll rows, esc.trans beside.1, name.trans beside.2,
    inView_clampScroll roomy ed⟩

/-- The terminal does what the sheet means. -/
structure Refines (rows : Nat) (filename : String) (s : Session) (t : Sheet) : Prop where
  opened : s.editor.isSome = t.opened
  saved : s.saved = t.saved.map (filename, ·)
  editor : ∀ ed ∈ s.editor, Edits ed t.place ∧ ed.escState = t.esc ∧ ed.filename = filename ∧
    InView rows ed

/-- **One byte.** -/
theorem Refines.sendKeyEditor {rows : Nat} (roomy : 2 < rows) {filename : String} {s : Session}
    {t : Sheet} (refines : Refines rows filename s t) (b : UInt8) :
    ∃ s', s.sendKeyEditor rows b = some s' ∧ Refines rows filename s' (t.press b) := by
  obtain ⟨editor, saved⟩ := s
  obtain ⟨place, esc, open', wrote⟩ := t
  obtain ⟨opened, isSaved, isEditor⟩ := refines
  cases editor with
  | none =>
    obtain rfl : false = open' := opened
    exact ⟨_, rfl, rfl, isSaved, isEditor⟩
  | some ed =>
    obtain rfl : true = open' := opened
    obtain ⟨edits, rfl, name, inView⟩ := isEditor ed rfl
    have only : ∀ {ed' : EditorState} {P : EditorState → Prop}, P ed' →
        ∀ ed'' ∈ some ed', P ed'' := by
      intro ed' P holds ed'' same
      cases same
      exact holds
    rw [Session.sendKeyEditor, Sheet.press, if_neg (not_not_intro rfl)]
    dsimp only
    by_cases one : ed.escState = 1
    · rw [if_pos one, if_pos one]
      exact ⟨_, rfl, rfl, isSaved, only ⟨edits.escState _, rfl, name, inView⟩⟩
    rw [if_neg one, if_neg one]
    by_cases two : ed.escState = 2
    · rw [if_pos two, if_pos two]
      obtain ⟨edits', beside⟩ := edits_csi (edits.escState 0) b
      obtain ⟨moved, esc', name', inView'⟩ := edits'.settle roomy beside
      exact ⟨_, rfl, rfl, isSaved, only ⟨moved, esc', name'.trans name, inView'⟩⟩
    rw [if_neg two, if_neg two]
    by_cases escape : b = 0x1B
    · subst escape
      rw [if_pos rfl, EditorState.key, if_pos rfl]
      obtain ⟨moved, esc', name', inView'⟩ := (edits.escState 1).settle roomy ⟨rfl, rfl⟩
      exact ⟨_, rfl, rfl, isSaved, only ⟨moved, esc', name'.trans name, inView'⟩⟩
    rw [if_neg escape]
    by_cases command : b = 0x13 ∨ b = 0x18 ∨ b = 0x11
    · have kept : ed.key b = some ed := by
        rw [EditorState.key, if_neg escape, if_pos command]
      obtain ⟨moved, esc', name', inView'⟩ := @Edits.settle rows roomy ed ed place edits ⟨rfl, rfl⟩
      rw [kept, Option.map_some]
      by_cases save : b = 0x13
      · rw [if_pos save, if_pos save]
        refine ⟨_, rfl, rfl, ?_, ?_⟩
        · show saved ++ [((ed.clampScroll rows).filename, (ed.clampScroll rows).toBytes)] =
            (wrote ++ [place.text]).map (filename, ·)
          rw [moved.toBytes, name', name, List.map_append]
          exact congrArg (· ++ [(filename, place.text)]) isSaved
        · obtain ⟨p, shows, clean, same⟩ := moved
          exact only ⟨⟨p, ⟨shows.lines, shows.cursorRow, shows.cursorCol⟩, clean, same⟩, esc',
            name'.trans name, inView'⟩
      · have leave : b = 0x18 ∨ b = 0x11 := command.resolve_left save
        rw [if_neg save, if_neg save, if_pos leave, if_pos leave]
        exact ⟨_, rfl, rfl, isSaved, fun ed' none => (by cases none)⟩
    · obtain ⟨ed', pressed, edits', beside⟩ := edits_key edits escape command
      obtain ⟨moved, esc', name', inView'⟩ := edits'.settle roomy beside
      rw [not_or] at command
      rw [pressed, Option.map_some, if_neg command.1, if_neg command.1, if_neg command.2,
        if_neg command.2]
      exact ⟨_, rfl, rfl, isSaved, only ⟨moved, esc', name'.trans name, inView'⟩⟩

theorem Refines.run {rows : Nat} (roomy : 2 < rows) {filename : String} (keys : List UInt8)
    {s : Session} {t : Sheet} (refines : Refines rows filename s t) :
    ∃ s', s.run rows keys = some s' ∧ Refines rows filename s' (keys.foldl Sheet.press t) := by
  induction keys generalizing s t with
  | nil => exact ⟨s, rfl, refines⟩
  | cons b keys ih =>
    obtain ⟨s₁, pressed, refines₁⟩ := refines.sendKeyEditor roomy b
    obtain ⟨s', ran, refines'⟩ := ih refines₁
    refine ⟨s', ?_, refines'⟩
    rw [Session.run, pressed]
    exact ran

theorem newLoop_append (lines : List (List UInt8)) (cur data : List UInt8) :
    EditorState.newLoop lines cur data = lines ++ EditorState.newLoop [] cur data := by
  induction data generalizing lines cur with
  | nil => rfl
  | cons b data ih =>
    rw [EditorState.newLoop, EditorState.newLoop]
    by_cases newline : b = 10
    · rw [if_pos newline, if_pos newline, ih, ih ([] ++ [cur]), List.nil_append, List.append_assoc]
    · rw [if_neg newline, if_neg newline, ih]

/-- The lines of a file: no line holds a newline, and joined they are the file. -/
theorem newLoop_eq (data : List UInt8) {cur : List UInt8} (free : 10 ∉ cur) :
    ∃ line rest, EditorState.newLoop [] cur data = line :: rest ∧
      (∀ l ∈ line :: rest, 10 ∉ l) ∧ line ++ Page.begun 10 rest = cur ++ data := by
  induction data generalizing cur with
  | nil => exact ⟨cur, [], rfl, List.forall_mem_singleton.mpr free, rfl⟩
  | cons b data ih =>
    rw [EditorState.newLoop]
    by_cases newline : b = 10
    · obtain ⟨line, rest, lines, clean, whole⟩ := ih (List.not_mem_nil (a := (10 : UInt8)))
      refine ⟨cur, line :: rest, ?_, List.forall_mem_cons.mpr ⟨free, clean⟩, ?_⟩
      · rw [if_pos newline, newLoop_append, lines]
        rfl
      · rw [Page.begun_cons, whole, newline]
        rfl
    · have freeNext : 10 ∉ cur ++ [b] :=
        Page.not_mem_append free fun member => newline (List.mem_singleton.mp member).symm
      obtain ⟨line, rest, lines, clean, whole⟩ := ih freeNext
      refine ⟨line, rest, ?_, clean, ?_⟩
      · rw [if_neg newline, lines]
      · rw [whole, List.append_assoc]
        rfl

theorem edits_new (filename : String) (data : List UInt8) :
    Edits (EditorState.new filename data) ⟨[], data⟩ := by
  obtain ⟨line, rest, lines, clean, whole⟩ := newLoop_eq data (List.not_mem_nil (a := (10 : UInt8)))
  refine ⟨⟨[], [], line, rest⟩, ⟨lines, rfl, rfl⟩, ?_, ?_⟩
  · exact ⟨fun l none => (by cases none), List.not_mem_nil, clean line List.mem_cons_self,
      fun l member => clean l (List.mem_cons_of_mem line member)⟩
  · exact Place.ext rfl whole

/-- The terminal in which a file was just opened. -/
def opening (filename : String) (data : List UInt8) : Session where
  editor := some (EditorState.new filename data)
  saved := []

end RustyPenguin.Editor
