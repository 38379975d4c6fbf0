import RustyPenguin.Files.Store
import RustyPenguin.Foundation.Checked

/-!
# The terminal's screen

The grid of cells, the cursor, and the bytes that print to it: printable bytes, control bytes
and escape sequences. Some sequences edit the command line, and two of them print a line of the
history, whose bytes are processed in turn: `processByte` has as an argument how deep this may
nest. Where the program would index out of range the model faults.
-/

set_option autoImplicit false

namespace RustyPenguin.Term

open Files

/-- A character as a byte. -/
def chr (c : Char) : UInt8 := UInt8.ofNat c.toNat

/-- `COLS`. -/
def gridCols : Nat := 80

/-- `ROWS`. -/
def gridRows : Nat := 24

def historyCap : Nat := 32

def defaultFg : UInt32 := 0x4ADE80
def defaultBg : UInt32 := 0x0F172A

structure Cell where
  ch : UInt8
  fg : UInt32
  bg : UInt32

/-- `Cell::default`. -/
def defaultCell : Cell := ⟨chr ' ', defaultFg, defaultBg⟩

inductive EscState where
  | normal
  | esc
  | csi (params : Bytes)

structure Terminal where
  cols : Nat
  rows : Nat
  cells : List Cell
  curCol : Nat
  curRow : Nat
  curFg : UInt32
  curBg : UInt32
  esc : EscState
  lineBuf : Bytes
  lineLen : Nat
  lineCursor : Nat
  history : List Bytes
  histPos : Nat
  savedLine : Bytes
  capture : Option Bytes

namespace Terminal

/-! ## Cells -/

def blank (t : Terminal) : Cell := ⟨chr ' ', t.curFg, t.curBg⟩

/-- Write the cell under the cursor. -/
def setCell (t : Terminal) (cell : Cell) : Checked Terminal := do
  let cells ← Checked.setAt t.cells (t.curRow * t.cols + t.curCol) cell
  pure { t with cells := cells }

/-- Copy a row of cells from the row below it. -/
def copyRow (cols : Nat) (cells : List Cell) (row : Nat) : Checked (List Cell) :=
  (List.range cols).foldlM
    (fun cells col => do
      let cell ← Checked.index cells ((row + 1) * cols + col)
      Checked.setAt cells (row * cols + col) cell) cells

def scrollUp (t : Terminal) : Checked Terminal := do
  let last ← Checked.subIn t.rows 1
  let cells ← (List.range last).foldlM (copyRow t.cols) t.cells
  let cells ← (List.range t.cols).foldlM
    (fun cells col => Checked.setAt cells (last * t.cols + col) t.blank) cells
  pure { t with cells := cells }

def newline (t : Terminal) : Checked Terminal := do
  let t := { t with curCol := 0, curRow := t.curRow + 1 }
  if t.rows ≤ t.curRow then do
    let t ← t.scrollUp
    pure { t with curRow := t.rows - 1 }
  else pure t

/-- At the last column the cursor wraps as a newline does. -/
def putChar (ch : UInt8) (t : Terminal) : Checked Terminal := do
  let t ← t.setCell ⟨ch, t.curFg, t.curBg⟩
  let t := { t with curCol := t.curCol + 1 }
  if t.cols ≤ t.curCol then t.newline else pure t

/-- All cells cleared and the cursor home. -/
def clearCells (cell : Cell) (t : Terminal) : Terminal :=
  { t with cells := t.cells.map fun _ => cell, curCol := 0, curRow := 0 }

/-! ## Parameters of escape sequences -/

/-- `parse` of an unsigned number below a limit. -/
def parseNum (limit : Nat) (s : Bytes) : Option Nat :=
  let digits := if s.head? = some (chr '+') then s.tail else s
  if digits ≠ [] ∧ ∀ b ∈ digits, chr '0' ≤ b ∧ b ≤ chr '9' then
    let n := digits.foldl (fun n b => 10 * n + (b - chr '0').toNat) 0
    if n < limit then some n else none
  else none

/-- The first parameter, at least one. -/
def count (p : Bytes) : Nat :=
  max (((p.splitOn (chr ';')).head?.bind (parseNum (2 ^ 64))).getD 1) 1

/-- Row and column of a cursor position: what is before and what after the first semicolon. -/
def position (p : Bytes) : Nat × Nat :=
  let row := p.takeWhile (· ≠ chr ';')
  let rest := p.drop row.length
  let col := if rest = [] then none else parseNum (2 ^ 64) rest.tail
  (max ((parseNum (2 ^ 64) row).getD 1) 1 - 1, max (col.getD 1) 1 - 1)

/-- The foreground colours. -/
def colours : List (Nat × UInt32) :=
  [(30, 0x1E293B), (31, 0xEF4444), (32, 0x4ADE80), (33, 0xFBBF24), (34, 0x60A5FA), (35, 0xC084FC),
    (36, 0x22D3EE), (37, 0xF8FAFC), (90, 0x64748B), (91, 0xF87171), (92, 0x86EFAC),
    (93, 0xFDE68A), (94, 0x93C5FD), (95, 0xD8B4FE), (96, 0x67E8F9), (97, 0xFFFFFF)]

def setColour (t : Terminal) (part : Bytes) : Terminal :=
  let n := (parseNum (2 ^ 32) part).getD 0
  if n = 0 then { t with curFg := defaultFg, curBg := defaultBg }
  else match colours.lookup n with
    | some colour => { t with curFg := colour }
    | none => t

/-! ## The command line on the screen -/

/-- Print one byte of the line, if it fits in the row. -/
def redrawByte (t : Terminal) (i : Nat) : Checked Terminal :=
  if t.curCol < t.cols then do
    let ch ← Checked.index t.lineBuf i
    let t ← t.setCell ⟨ch, t.curFg, t.curBg⟩
    pure { t with curCol := t.curCol + 1 }
  else pure t

/-- Print a blank, if it fits in the row. -/
def redrawBlank (t : Terminal) : Checked Terminal :=
  if t.curCol < t.cols then do
    let t ← t.setCell t.blank
    pure { t with curCol := t.curCol + 1 }
  else pure t

/-- Print the line from a position on, a blank after it, and put the cursor back. -/
def redrawFrom (start : Nat) (t : Terminal) : Checked Terminal := do
  let startCol := t.curCol
  let t ← (List.range' start (t.lineLen - start)).foldlM redrawByte t
  let t ← redrawBlank t
  let desired := startCol + (t.lineCursor - start)
  pure (if desired ≤ t.curCol then { t with curCol := desired } else t)

/-- Copy a byte from the position above it. -/
def pullByte (buf : Bytes) (i : Nat) : Checked Bytes := do
  let b ← Checked.index buf (i + 1)
  Checked.setAt buf i b

/-- Copy a byte from the position below it. -/
def pushByte (buf : Bytes) (i : Nat) : Checked Bytes := do
  let b ← Checked.index buf (i - 1)
  Checked.setAt buf i b

/-- Move the cursor over the given number of bytes of the line. -/
def skipRight : Nat → Terminal → Terminal
  | 0, t => t
  | n + 1, t => skipRight n
      { t with curCol := min (t.curCol + 1) (t.cols - 1), lineCursor := t.lineCursor + 1 }

section Nested

variable (process : UInt8 → Terminal → Checked Terminal)

/-- Erase the last bytes of the line, whose length this is. -/
def eraseBack : Nat → Terminal → Checked Terminal
  | 0, t => pure t
  | n + 1, t => do
    let t ← process 0x08 { t with lineLen := n, lineCursor := n }
    eraseBack n t

def eraseLineInput (t : Terminal) : Checked Terminal :=
  let t := skipRight (t.lineLen - t.lineCursor) t
  eraseBack process t.lineLen t

def loadHistoryLine (src : Bytes) (t : Terminal) : Checked Terminal := do
  let t ← eraseLineInput process t
  let n := min src.length 255
  if n ≤ t.lineBuf.length then
    let t := { t with lineBuf := src.take n ++ t.lineBuf.drop n, lineLen := n, lineCursor := n }
    (src.take n).foldlM (fun t b => process b t) t
  else Checked.fault

end Nested

/-! ## Escape sequences -/

/-- Keep the line that is being typed. -/
def saveLine (t : Terminal) : Checked Terminal :=
  if t.histPos = t.history.length then do
    let saved ← Checked.sub t.lineBuf 0 t.lineLen
    pure { t with savedLine := saved }
  else pure t

/-- The previous line of the history. -/
def historyUp (load : Bytes → Terminal → Checked Terminal) (t : Terminal) : Checked Terminal := do
  if t.history = [] then pure t
  else do
    let t ← saveLine t
    if 0 < t.histPos then do
      let t := { t with histPos := t.histPos - 1 }
      let entry ← Checked.index t.history t.histPos
      load entry t
    else pure t

/-- The next line of the history, or the one that was being typed. -/
def historyDown (load : Bytes → Terminal → Checked Terminal) (t : Terminal) :
    Checked Terminal := do
  if t.histPos < t.history.length then do
    let t := { t with histPos := t.histPos + 1 }
    let line ← (if t.histPos = t.history.length then pure t.savedLine
      else Checked.index t.history t.histPos)
    load line t
  else pure t

/-- Delete the byte under the cursor. -/
def deleteHere (t : Terminal) : Checked Terminal := do
  if t.lineCursor < t.lineLen then do
    let lineBuf ← (List.range' t.lineCursor (t.lineLen - 1 - t.lineCursor)).foldlM pullByte t.lineBuf
    redrawFrom t.lineCursor { t with lineBuf := lineBuf, lineLen := t.lineLen - 1 }
  else pure t

def handleCsi (load : Bytes → Terminal → Checked Terminal) (params : Bytes) (cmd : UInt8)
    (t : Terminal) : Checked Terminal :=
  let p := params.dropWhile (· = chr '?')
  if cmd = chr 'm' then
    pure (if p = [] then { t with curFg := defaultFg, curBg := defaultBg }
      else (p.splitOn (chr ';')).foldl setColour t)
  else if cmd = chr 'J' ∧ (p = [chr '2'] ∨ p = [chr '3']) then pure (t.clearCells t.blank)
  else if (cmd = chr 'H' ∨ cmd = chr 'f') ∧ p ≠ [] ∧ p ≠ [chr ';'] then
    pure { t with
      curRow := min (position p).1 (t.rows - 1), curCol := min (position p).2 (t.cols - 1) }
  else if cmd = chr 'A' ∧ p = [] then historyUp load t
  else if cmd = chr 'B' ∧ p = [] then historyDown load t
  else if cmd = chr 'D' ∧ p = [] then
    pure (if 0 < t.lineCursor then
      { t with lineCursor := t.lineCursor - 1, curCol := t.curCol - 1 } else t)
  else if cmd = chr 'C' ∧ p = [] then
    pure (if t.lineCursor < t.lineLen then
      { t with lineCursor := t.lineCursor + 1, curCol := min (t.curCol + 1) (t.cols - 1) } else t)
  else if cmd = chr 'H' ∧ p = [] then
    pure { t with lineCursor := 0, curCol := t.curCol - t.lineCursor }
  else if cmd = chr 'F' ∧ p = [] then do
    let fwd ← Checked.subIn t.lineLen t.lineCursor
    pure { t with lineCursor := t.lineLen, curCol := min (t.curCol + fwd) (t.cols - 1) }
  else if cmd = chr '~' ∧ p = [chr '3'] then deleteHere t
  else if cmd = chr 'A' then pure { t with curRow := t.curRow - count p }
  else if cmd = chr 'B' then
    pure { t with curRow := min ((t.curRow + count p) % 2 ^ 64) (t.rows - 1) }
  else if cmd = chr 'C' then
    pure { t with curCol := min ((t.curCol + count p) % 2 ^ 64) (t.cols - 1) }
  else if cmd = chr 'D' then pure { t with curCol := t.curCol - count p }
  else pure t

/-! ## Bytes -/

/-- `is_ascii_alphabetic`. -/
def isAlphabetic (b : UInt8) : Bool :=
  (chr 'A' ≤ b && b ≤ chr 'Z') || (chr 'a' ≤ b && b ≤ chr 'z')

/-- A byte outside an escape sequence. -/
def processNormal (b : UInt8) (t : Terminal) : Checked Terminal :=
  if b = chr '\n' then t.newline
  else if b = chr '\r' then pure { t with curCol := 0 }
  else if b = 0x08 ∨ b = 0x7F then
    if 0 < t.curCol then setCell { t with curCol := t.curCol - 1 } t.blank else pure t
  else if b = 0x1B then pure { t with esc := .esc }
  else if 0x20 ≤ b then t.putChar b
  else pure t

/-- The state is that of the sequence until it has been handled. -/
def processWith (load : Bytes → Terminal → Checked Terminal) (b : UInt8) (t : Terminal) :
    Checked Terminal :=
  match t.esc with
  | .normal => processNormal b t
  | .esc => pure { t with esc := if b = chr '[' then .csi [] else .normal }
  | .csi params =>
    if isAlphabetic b then do
      let t ← handleCsi load params b t
      pure { t with esc := .normal }
    else pure { t with esc := .csi (params ++ [b]) }

/-- `process_byte`, where lines of the history may nest this deep. -/
def processByte : Nat → UInt8 → Terminal → Checked Terminal
  | 0 => fun _ _ => Checked.refuse
  | depth + 1 => processWith (loadHistoryLine (processByte depth))

def writeOutput (process : UInt8 → Terminal → Checked Terminal) (bytes : Bytes) (t : Terminal) :
    Checked Terminal :=
  match t.capture with
  | some cap => pure { t with capture := some (cap ++ bytes) }
  | none => bytes.foldlM (fun t b => process b t) t

end Terminal

end RustyPenguin.Term
