import RustyPenguin.Term.Screen

/-!
# Keys, output and resizing

The keys of the shell prompt edit the command line and show what they change; a finished line
is run by the shell, which prints, clears the screen and redirects its output in ways that the
model leaves open. Output and resizing may come between any two keys.
-/

set_option autoImplicit false

namespace RustyPenguin.Term

open Files

/-- A file or a directory, as completion sees it. -/
structure Entry where
  name : Bytes
  isDir : Bool

/-- What a command may do to the terminal. -/
inductive Effect where
  | output (bytes : Bytes)
  | clear
  | capture (cap : Option Bytes)

/-- What a key meets outside the terminal: the clipboard, the files, what the command it
finishes does, and the directory after it. -/
structure Outside where
  clipboard : Option Bytes
  entries : List Entry
  effects : List Effect
  cwd : Bytes

inductive Event where
  | key (b : UInt8) (out : Outside)
  | output (bytes : Bytes)
  | resize (cols rows : Nat)

/-- Bytes of characters. -/
def chars (cs : List Char) : Bytes := cs.map chr

/-- A colour's escape sequence. -/
def escape (digits : List Char) : Bytes := 0x1B :: chars ('[' :: digits ++ ['m'])

def promptHead : Bytes :=
  escape ['3', '2'] ++ chars ['r', 'i', 'n', 'g', '3'] ++ escape ['0'] ++ chars ['@'] ++
    escape ['3', '6'] ++
    chars ['r', 'u', 's', 't', 'y', '-', 'p', 'e', 'n', 'g', 'u', 'i', 'n'] ++
    escape ['9', '0'] ++ chars [':']

/-- The prompt in the home directory. -/
def promptHome : Bytes := promptHead ++ chars ['~', '$'] ++ escape ['0'] ++ chars [' ']

/-- The prompt after a command. -/
def promptAt (cwd : Bytes) : Bytes := promptHead ++ cwd ++ escape ['0'] ++ chars ['$', ' ']

/-- The commands that completion knows. -/
def cmds : List Bytes :=
  ["ai", "alias", "bc", "calc", "cat", "cd", "clear", "cp", "cut", "date", "df", "du", "echo", "env",
    "exit", "file", "find", "free", "grep", "head", "help", "hexdump", "history", "hostname",
    "hostid", "id", "fetch", "wget", "kinstall", "kmanager", "kver", "ls", "lscpu", "lsb_release",
    "mem", "mkdir", "mv", "nano", "neofetch", "printf", "printenv", "ps", "psh", "pwd", "rev", "rm",
    "seq", "sort", "stat", "sysinfo", "tail", "touch", "tr", "trit", "uname", "unalias", "uniq",
    "uptime", "vi", "wc", "which", "whoami", "xxd", "ifconfig", "ip", "ipconfig", "ping", "route",
    "netstat", "curl"].map asBytes

/-- `from_utf8` with the empty text for what is none. -/
def textOr (bytes : Bytes) : Bytes := if (fromUtf8 bytes).isSome then bytes else []

/-- The length of the common prefix of two texts. -/
def agree : Bytes → Bytes → Nat
  | a :: first, b :: s => if a = b then agree first s + 1 else 0
  | _, _ => 0

def tabCommonPrefix : List Bytes → Bytes
  | [] => []
  | first :: rest =>
    let len := rest.foldl (fun len s => min (agree first s) len) first.length
    textOr (first.take len)

namespace Terminal

section Nested

variable (process : UInt8 → Terminal → Checked Terminal)

/-- Append a byte to the line and print it. -/
def typeByte (b : UInt8) (t : Terminal) : Checked Terminal := do
  let lineBuf ← Checked.setAt t.lineBuf t.lineLen b
  process b
    { t with lineBuf := lineBuf, lineLen := t.lineLen + 1, lineCursor := t.lineCursor + 1 }

/-- Insert a byte into the line. -/
def insertByte (b : UInt8) (t : Terminal) : Checked Terminal := do
  let start := t.lineCursor
  let lineBuf ← (List.range' (start + 1) (t.lineLen - start)).reverse.foldlM pushByte t.lineBuf
  let lineBuf ← Checked.setAt lineBuf start b
  redrawFrom start
    { t with lineBuf := lineBuf, lineLen := t.lineLen + 1, lineCursor := t.lineCursor + 1 }

/-- Delete the byte before the cursor. -/
def backspaceKey (t : Terminal) : Checked Terminal := do
  if 0 < t.lineCursor then
    if t.lineCursor = t.lineLen then
      process 0x08 { t with lineLen := t.lineLen - 1, lineCursor := t.lineCursor - 1 }
    else do
      let start := t.lineCursor - 1
      let lineBuf ← (List.range' start (t.lineLen - 1 - start)).foldlM pullByte t.lineBuf
      redrawFrom (t.lineCursor - 1)
        { t with
          lineBuf := lineBuf, lineLen := t.lineLen - 1, lineCursor := t.lineCursor - 1,
          curCol := t.curCol - 1 }
  else pure t

/-- Process the first bytes of the line. -/
def reprintLine (n : Nat) (t : Terminal) : Checked Terminal :=
  (List.range n).foldlM
    (fun (t : Terminal) i => do
      let b ← Checked.index t.lineBuf i
      process b t) t

/-- The candidates for the last word of the line. -/
def candidates (entries : List Entry) (isCmd : Bool) (pre : Bytes) : List Bytes :=
  if isCmd then cmds.filter (pre.isPrefixOf ·)
  else (entries.filter fun e => pre.isPrefixOf e.name).map fun e =>
    if e.isDir then e.name ++ [chr '/'] else e.name

/-- Print the candidates, two blanks between them. -/
def printCandidates : List Bytes → Terminal → Checked Terminal
  | [], t => pure t
  | [m], t => writeOutput process m t
  | m :: rest, t => do
    let t ← writeOutput process m t
    let t ← writeOutput process (chars [' ', ' ']) t
    printCandidates rest t

/-- Type what the candidates have in common, and a blank after the only one. -/
def typeCommon (found : List Bytes) (isCmd : Bool) (addition : Bytes) (t : Terminal) :
    Checked Terminal := do
  let t ← addition.foldlM
    (fun (t : Terminal) b => if t.lineLen < 255 then typeByte process b t else pure t) t
  if found.length = 1 ∧ isCmd = true ∧ t.lineLen < 255 then typeByte process (chr ' ') t else pure t

/-- Print the candidates, the prompt and the line. -/
def showCandidates (found : List Bytes) (t : Terminal) : Checked Terminal := do
  let t ← writeOutput process (chars ['\r', '\n']) t
  let t ← printCandidates process found t
  let t ← writeOutput process (chars ['\r', '\n']) t
  let t ← writeOutput process promptHome t
  reprintLine process t.lineLen t

def completeTab (entries : List Entry) (t : Terminal) : Checked Terminal := do
  if t.lineCursor ≠ t.lineLen then pure t
  else do
    let line ← Checked.sub t.lineBuf 0 t.lineLen
    let word := (line.reverse.takeWhile (· ≠ chr ' ')).reverse
    let pre := textOr word
    let isCmd := decide (word.length = line.length)
    let found := candidates entries isCmd pre
    if found = [] then pure t
    else
      let common := tabCommonPrefix found
      if pre.length < common.length then
        typeCommon process found isCmd (common.drop pre.length) t
      else showCandidates process found t

/-- A command's effect. -/
def perform (effect : Effect) (t : Terminal) : Checked Terminal :=
  match effect with
  | .output bytes => writeOutput process bytes t
  | .clear => pure (t.clearCells defaultCell)
  | .capture cap => pure { t with capture := cap }

/-- Keep a line in the history, the oldest one making room. -/
def remember (line : Bytes) (t : Terminal) : Terminal :=
  if line = [] then t
  else
    let history :=
      if t.history.getLast? = some line then t.history
      else (if historyCap ≤ t.history.length then t.history.drop 1 else t.history) ++ [line]
    { t with history := history, histPos := history.length }

/-- The end of a line: it is remembered, cleared and run. -/
def enterKey (out : Outside) (t : Terminal) : Checked Terminal := do
  let t ← process (chr '\n') t
  let line ← Checked.sub t.lineBuf 0 t.lineLen
  let t := remember line
    { t with lineLen := 0, lineCursor := 0, histPos := t.history.length, savedLine := [] }
  let t ← out.effects.foldlM (fun t effect => perform process effect t) t
  writeOutput process (promptAt out.cwd) t

/-- The line is dropped. -/
def interruptKey (t : Terminal) : Checked Terminal := do
  let t ← writeOutput process (chars ['^', 'C', '\r', '\n']) t
  writeOutput process promptHome
    { t with lineLen := 0, lineCursor := 0, histPos := t.history.length, savedLine := [] }

/-- The screen is cleared and the line printed again. -/
def redrawKey (t : Terminal) : Checked Terminal := do
  let t ← writeOutput process promptHome (t.clearCells defaultCell)
  let t ← reprintLine process t.lineLen t
  let back ← Checked.subIn t.lineLen t.lineCursor
  pure { t with curCol := t.curCol - back }

/-- A key other than the one that pastes. -/
def plainKey (b : UInt8) (out : Outside) (t : Terminal) : Checked Terminal :=
  if b = chr '\n' ∨ b = chr '\r' then enterKey process out t
  else if b = 0x08 ∨ b = 0x7F then backspaceKey process t
  else if b = 0x03 then interruptKey process t
  else if b = 0x0C then redrawKey process t
  else if b = 0x01 then pure { t with lineCursor := 0, curCol := t.curCol - t.lineCursor }
  else if b = 0x05 then do
    let fwd ← Checked.subIn t.lineLen t.lineCursor
    pure { t with lineCursor := t.lineLen, curCol := min (t.curCol + fwd) (t.cols - 1) }
  else if b = 0x09 then completeTab process out.entries t
  else if 0x20 ≤ b ∧ t.lineLen < 255 then
    if t.lineCursor = t.lineLen then typeByte process b t else insertByte b t
  else process b t

/-- The bytes of the clipboard that are typed. -/
def pasted (text : Bytes) : Bytes :=
  (if text.getLast? = some (chr '\n') then text.dropLast else text).filter fun b =>
    b = chr '\t' || (0x20 ≤ b && b < 0x7F)

def sendKey (b : UInt8) (out : Outside) (t : Terminal) : Checked Terminal :=
  if b = 0x16 then
    (pasted (out.clipboard.getD [])).foldlM (fun t b => plainKey process b out t) t
  else plainKey process b out t

end Nested

/-- Copy the cells that fit of a row. -/
def copyFitting (t : Terminal) (newCols : Nat) (cells : List Cell) (row : Nat) :
    Checked (List Cell) :=
  (List.range (min newCols t.cols)).foldlM
    (fun cells col => do
      let cell ← Checked.index t.cells (row * t.cols + col)
      Checked.setAt cells (row * newCols + col) cell) cells

def resizeTerm (cols rows : Nat) (t : Terminal) : Checked Terminal := do
  let newCols := max cols 8
  let newRows := max rows 4
  if newCols = t.cols ∧ newRows = t.rows then pure t
  else do
    let cells ← (List.range (min newRows t.rows)).foldlM (copyFitting t newCols)
      (List.replicate (newCols * newRows % 2 ^ 64) t.blank)
    pure { t with
      cells := cells, cols := newCols, rows := newRows,
      curCol := min t.curCol (newCols - 1), curRow := min t.curRow (newRows - 1) }

/-! ## Runs -/

def empty : Terminal where
  cols := gridCols
  rows := gridRows
  cells := List.replicate (gridCols * gridRows) defaultCell
  curCol := 0
  curRow := 0
  curFg := defaultFg
  curBg := defaultBg
  esc := .normal
  lineBuf := List.replicate 256 0
  lineLen := 0
  lineCursor := 0
  history := []
  histPos := 0
  savedLine := []
  capture := none

/-- The greeting, line by line. -/
def greeting : List Bytes :=
  [escape ['3', '2'] ++
      chars [' ', ' ', 'R', 'u', 's', 't', 'y', ' ', 'P', 'e', 'n', 'g', 'u', 'i', 'n'] ++
      escape ['0'] ++ chars [' '] ++ escape ['9', '0'] ++
      chars ['v', '1', '.', '0', '.', '0', ' '] ++ [0xB7] ++
      chars [' ', 'p', 's', 'h', ' ', '1', '.', '0'] ++ escape ['0'] ++ chars ['\r', '\n'],
    escape ['3', '6'] ++
      chars [' ', ' ', 'B', 'i', 'n', 'a', 'r', 'y', ' ', 'h', 'a', 'r', 'd', 'w', 'a', 'r', 'e', '.',
        ' ', 'T', 'e', 'r', 'n', 'a', 'r', 'y', ' ', 'm', 'i', 'n', 'd', '.'] ++
      escape ['0'] ++ chars ['\r', '\n'],
    escape ['9', '0'] ++
      chars [' ', ' ', 'T', 'y', 'p', 'e', ' '] ++ [0x27] ++ chars ['h', 'e', 'l', 'p'] ++ [0x27] ++
      chars [' ', 'f', 'o', 'r', ' ', 'c', 'o', 'm', 'm', 'a', 'n', 'd', 's', '.'] ++
      escape ['0'] ++ chars ['\r', '\n', '\r', '\n'],
    promptHome]

/-- The greeting is not to be unfolded when a run is. -/
@[irreducible] def spawn (depth : Nat) : Checked Terminal :=
  greeting.foldlM (fun t line => writeOutput (processByte depth) line t) empty

def step (depth : Nat) (t : Terminal) (e : Event) : Checked Terminal :=
  match e with
  | .key b out => sendKey (processByte depth) b out t
  | .output bytes => writeOutput (processByte depth) bytes t
  | .resize cols rows => resizeTerm cols rows t

/-- A run from the start, with lines of the history nested at most this deep. -/
def run (depth : Nat) (events : List Event) : Checked Terminal := do
  let t ← spawn depth
  events.foldlM (step depth) t

end Terminal

end RustyPenguin.Term
