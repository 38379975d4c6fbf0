import RustyPenguin.Files.Store
import RustyPenguin.Foundation.Offsets

/-!
# The text editor

The text is a list of lines, the cursor a line and a byte column. A key goes through the parser of the
escape sequences and changes the text or the cursor; a click sets the cursor. The column moves by one
byte at a time. Where the program would panic (an index that is out of range, an offset inside a
character) the model has no result.
-/

set_option autoImplicit false

namespace RustyPenguin.Editor

open Foundation Files

/-! ## Keys -/

inductive Key where
  | none
  | char (c : UInt8)
  | up
  | down
  | left
  | right
  | home
  | «end»
  | delete

/-- `AnsiParser::feed`, on the state of the parser. -/
def feed (state key : UInt8) : UInt8 × Key :=
  if state = 1 then (if key = 0x5B then 2 else 0, .none)
  else if state = 2 then
    if key = 0x41 then (0, .up)
    else if key = 0x42 then (0, .down)
    else if key = 0x43 then (0, .right)
    else if key = 0x44 then (0, .left)
    else if key = 0x48 then (0, .home)
    else if key = 0x46 then (0, .end)
    else if key = 0x33 then (3, .none)
    else (0, .none)
  else if state = 3 then (0, if key = 0x7E then .delete else .none)
  else if key = 0x1B then (1, .none)
  else (state, .char key)

/-! ## The editor -/

def tabWidth : Nat := 4

def lineH : Nat := 14

def charW : Nat := 8

def marginL : Nat := 8

def marginT : Nat := 8

structure TextEditor where
  lines : List Text
  cursorLine : Nat
  cursorCol : Nat
  scrollLine : Nat
  filename : String
  dirty : Bool
  wantsClose : Bool
  ansi : UInt8

namespace TextEditor

/-- `new`, with the content of the file where there is one. -/
def new (filename : String) (content : Option Bytes) : TextEditor :=
  let text := (fromUtf8 (content.getD [])).getD ""
  let lines := textLines text.toList
  { lines := if lines = [] then [[]] else lines
    cursorLine := 0
    cursorCol := 0
    scrollLine := 0
    filename := filename
    dirty := false
    wantsClose := false
    ansi := 0 }

def newFile (filename : String) : TextEditor :=
  { lines := [[]]
    cursorLine := 0
    cursorCol := 0
    scrollLine := 0
    filename := filename
    dirty := false
    wantsClose := false
    ansi := 0 }

/-- `save`, with the content that is written. -/
def save (s : TextEditor) : TextEditor × Text :=
  ({ s with dirty := false }, List.intercalate ['\n'] s.lines)

/-- `clamp_cursor`. -/
def clampCursor (s : TextEditor) : Option TextEditor :=
  let cursorLine := if s.lines.length ≤ s.cursorLine then s.lines.length - 1 else s.cursorLine
  s.lines[cursorLine]?.map fun line =>
    { s with cursorLine, cursorCol := min s.cursorCol (byteLen line) }

/-- The line of the cursor is replaced. -/
def setLine (s : TextEditor) (line : Text) : TextEditor :=
  { s with lines := s.lines.set s.cursorLine line }

def eraseLine (s : TextEditor) (i : Nat) : TextEditor := { s with lines := s.lines.eraseIdx i }

def moveTo (s : TextEditor) (cursorLine cursorCol : Nat) : TextEditor :=
  { s with cursorLine, cursorCol }

def setDirty (s : TextEditor) : TextEditor := { s with dirty := true }

/-- A newline at the cursor. -/
def breakLine (s : TextEditor) : Option TextEditor := do
  let line ← s.lines[s.cursorLine]?
  let tail ← tailFrom line s.cursorCol
  let front ← truncateAt line s.cursorCol
  let lines := (s.setLine front).lines
  if s.cursorLine + 1 ≤ lines.length then
    some ({ s with lines := lines.insertIdx (s.cursorLine + 1) tail }.moveTo (s.cursorLine + 1) 0)
  else none

/-- A character of one byte at the cursor. -/
def insertChar (s : TextEditor) (c : Char) : Option TextEditor := do
  let line ← s.lines[s.cursorLine]?
  let line ← insertAt line s.cursorCol c
  some ((s.setLine line).moveTo s.cursorLine (s.cursorCol + 1))

/-- `Key::Up`. -/
def moveUp (s : TextEditor) : Option TextEditor :=
  if 0 < s.cursorLine then (s.moveTo (s.cursorLine - 1) s.cursorCol).clampCursor else some s

/-- `Key::Down`. -/
def moveDown (s : TextEditor) : Option TextEditor :=
  if s.cursorLine + 1 < s.lines.length then (s.moveTo (s.cursorLine + 1) s.cursorCol).clampCursor
  else some s

/-- `Key::Right`. -/
def moveRight (s : TextEditor) : Option TextEditor :=
  s.lines[s.cursorLine]?.map fun line =>
    if s.cursorCol < byteLen line then s.moveTo s.cursorLine (s.cursorCol + 1)
    else if s.cursorLine + 1 < s.lines.length then s.moveTo (s.cursorLine + 1) 0
    else s

/-- `Key::Left`. -/
def moveLeft (s : TextEditor) : Option TextEditor :=
  if 0 < s.cursorCol then some (s.moveTo s.cursorLine (s.cursorCol - 1))
  else if 0 < s.cursorLine then
    s.lines[s.cursorLine - 1]?.map fun line => s.moveTo (s.cursorLine - 1) (byteLen line)
  else some s

/-- `Key::End`. -/
def moveEnd (s : TextEditor) : Option TextEditor :=
  s.lines[s.cursorLine]?.map fun line => s.moveTo s.cursorLine (byteLen line)

/-- `Key::Delete`. -/
def deleteKey (s : TextEditor) : Option TextEditor := do
  let line ← s.lines[s.cursorLine]?
  if s.cursorCol < byteLen line then
    let line ← removeAt line s.cursorCol
    some (s.setLine line).setDirty
  else if s.cursorLine + 1 < s.lines.length then
    let next ← s.lines[s.cursorLine + 1]?
    some ((s.eraseLine (s.cursorLine + 1)).setLine (line ++ next)).setDirty
  else some s

/-- `Key::Char` of a backspace. -/
def backspace (s : TextEditor) : Option TextEditor :=
  if 0 < s.cursorCol then do
    let line ← s.lines[s.cursorLine]?
    let line ← removeAt line (s.cursorCol - 1)
    some ((s.setLine line).moveTo s.cursorLine (s.cursorCol - 1)).setDirty
  else if 0 < s.cursorLine then do
    let line ← s.lines[s.cursorLine]?
    let lines := (s.eraseLine s.cursorLine).lines
    let before ← lines[s.cursorLine - 1]?
    some (((s.eraseLine s.cursorLine).moveTo (s.cursorLine - 1) (byteLen before)).setLine
      (before ++ line)).setDirty
  else some s

/-- The loop of `Key::Char(0x16)` over the characters. Only newlines and printable ones are taken. -/
def pasteChars (s : TextEditor) : Text → Option TextEditor
  | [] => some s
  | c :: text =>
    (if c = '\n' then s.breakLine
      else if 0x20 ≤ c.toNat ∧ c.toNat < 0x7F then s.insertChar c else some s).bind
        fun s => pasteChars s text

def paste (s : TextEditor) : Option Text → Option TextEditor
  | none => some s
  | some text => (s.pasteChars text).bind fun s => s.setDirty.clampCursor

/-- The loop of `Key::Char(9)`. -/
def insertTimes (s : TextEditor) (c : Char) : Nat → Option TextEditor
  | 0 => some s
  | n + 1 => (s.insertChar c).bind fun s => insertTimes s c n

/-- The `match` of `send_key`, with the clipboard. -/
def handleKey (s : TextEditor) (clipboard : Option Text) : Key → Option (TextEditor × Option Text)
  | .none => some (s, clipboard)
  | .up => s.moveUp.map (·, clipboard)
  | .down => s.moveDown.map (·, clipboard)
  | .right => s.moveRight.map (·, clipboard)
  | .left => s.moveLeft.map (·, clipboard)
  | .home => some (s.moveTo s.cursorLine 0, clipboard)
  | .end => s.moveEnd.map (·, clipboard)
  | .delete => s.deleteKey.map (·, clipboard)
  | .char c =>
    if c = 0x03 then s.lines[s.cursorLine]?.map fun line => (s, some line)
    else if c = 0x16 then (s.paste clipboard).map (·, clipboard)
    else if c = 0x0A ∨ c = 0x0D then s.breakLine.map fun s => (s.setDirty, clipboard)
    else if c = 0x08 ∨ c = 0x7F then s.backspace.map (·, clipboard)
    else if c = 9 then (s.insertTimes ' ' tabWidth).map fun s => (s.setDirty, clipboard)
    else if 32 ≤ c ∧ c ≤ 126 then
      (s.insertChar (Char.ofUInt8 c)).map fun s => (s.setDirty, clipboard)
    else some (s, clipboard)

/-- `send_key`. -/
def sendKey (s : TextEditor) (clipboard : Option Text) (key : UInt8) :
    Option (TextEditor × Option Text) :=
  (handleKey { s with ansi := (feed s.ansi key).1 } clipboard (feed s.ansi key).2).bind
    fun after => after.1.clampCursor.map (·, after.2)

/-- The decimal digits of a number of lines. -/
def digits (n : Nat) : Nat := if 10 ≤ n then digits (n / 10) + 1 else 1

def gutterWidth (count : Nat) : Nat := (max (digits count) 3 + 1) * charW

/-- The line and the column of a click, where it is on a line. -/
def clicked (s : TextEditor) (x y : BitVec 32) (buttons : UInt8) : Option (Nat × Nat) :=
  if buttons &&& 0x01 = 0 then none
  else
    let lx := (x - BitVec.ofNat 32 (marginL + gutterWidth s.lines.length)).toInt
    let ly := (y - BitVec.ofNat 32 marginT).toInt
    if ly < 0 then none
    else
      let lineIdx := s.scrollLine + ly.toNat / lineH
      if s.lines.length ≤ lineIdx then none else some (lineIdx, (max lx 0).toNat / charW)

/-- `on_mouse`. -/
def onMouse (s : TextEditor) (x y : BitVec 32) (buttons : UInt8) : Option TextEditor :=
  match s.clicked x y buttons with
  | none => some s
  | some (lineIdx, col) => s.lines[lineIdx]?.map fun line =>
    s.moveTo lineIdx (min col (byteLen line))

/-- What `render` changes: the line that is at the top of a window of this height. -/
def render (s : TextEditor) (h : Nat) : TextEditor :=
  let maxLines := (h - 16) / lineH
  { s with scrollLine := min (s.cursorLine - maxLines / 2) (s.lines.length - maxLines) }

end TextEditor

/-! ## The desktop around it -/

/-- The editor and the clipboard, which the other windows share. -/
structure Desk where
  editor : TextEditor
  clipboard : Option Text

inductive Event where
  | key (key : UInt8)
  | mouse (x y : BitVec 32) (buttons : UInt8)
  | render (h : Nat)
  | save
  | «open» (filename : String) (content : Option Bytes)
  | newFile (filename : String)
  /-- Another window puts a text into the clipboard. -/
  | copied (text : Text)

/-- A step; there is none after a panic. -/
def Desk.handle (d : Desk) : Event → Option Desk
  | .key key => (d.editor.sendKey d.clipboard key).map fun after => ⟨after.1, after.2⟩
  | .mouse x y buttons => (d.editor.onMouse x y buttons).map fun s => { d with editor := s }
  | .render h => some { d with editor := d.editor.render h }
  | .save => some { d with editor := d.editor.save.1 }
  | .open filename content => some { d with editor := TextEditor.new filename content }
  | .newFile filename => some { d with editor := TextEditor.newFile filename }
  | .copied text => some { d with clipboard := some text }

def step (d : Option Desk) (e : Event) : Option Desk := d.bind fun d => d.handle e

end RustyPenguin.Editor
