import RustyPenguin.Term.Bounds

/-!
# Sessions of a terminal

What keys, output and resizing may do in any order. A session is tame when no byte is inserted
into the middle of the line in the last column and no resizing asks for more cells than a word
counts. Tame sessions keep the terminal valid, and index nothing out of range.
-/

set_option autoImplicit false

namespace RustyPenguin.Term.Terminal

open Files Checked

variable {t : Terminal} {process : UInt8 → Terminal → Checked Terminal}

/-! ## Output -/

theorem writeOutput_valid (safe : Safe process) (valid : Valid t) (bytes : Bytes) :
    Holds (writeOutput process bytes t) Valid := by
  rw [writeOutput]
  split
  · exact { valid with }
  · exact processAll_valid safe valid bytes

theorem reprintLine_valid (safe : Safe process) (valid : Valid t) {n : Nat} (inside : n ≤ 256) :
    Holds (reprintLine process n t) Valid := by
  refine Holds.foldlM valid fun t i member valid => ?_
  have below := List.mem_range.mp member
  have buffer := valid.buffer
  exact (holds_index (by omega)).bind fun b _ => safe b t valid

/-! ## Editing the line -/

theorem typeByte_valid (safe : Safe process) (valid : Valid t) (room : t.lineLen < 255) (b : UInt8) :
    Holds (typeByte process b t) Valid := by
  have buffer := valid.buffer
  refine (holds_setAt (by omega)).bind fun buf set => safe b _ ?_
  exact { valid with
    buffer := by rw [set, List.length_set, buffer]
    cursor := Nat.succ_le_succ valid.cursor
    line := room }

/-- A byte may be inserted where the cursor can move right. -/
theorem insertByte_valid (valid : Valid t) (room : t.lineLen < 255)
    (inside : t.curCol + 1 < t.cols) (b : UInt8) : Holds (insertByte b t) Valid := by
  have cursor := valid.cursor
  refine (pushByte_spec (by omega) valid.buffer).bind fun buf length => ?_
  refine (holds_setAt (by omega)).bind fun buf' set => ?_
  have longer : Valid { t with
      lineBuf := buf', lineLen := t.lineLen + 1, lineCursor := t.lineCursor + 1 } :=
    { valid with
      buffer := by rw [set, List.length_set, length]
      cursor := Nat.succ_le_succ cursor
      line := room }
  refine redrawFrom_valid longer ?_
  show t.curCol + (t.lineCursor + 1 - t.lineCursor) < t.cols
  omega

theorem backspaceKey_valid (safe : Safe process) (valid : Valid t) :
    Holds (backspaceKey process t) Valid := by
  have cursor := valid.cursor
  have line := valid.line
  have col := valid.col
  refine Holds.ite (fun some => ?_) fun _ => valid
  refine Holds.ite (fun atEnd => ?_) fun inside => ?_
  · exact safe 0x08 _ { valid with
      cursor := show t.lineCursor - 1 ≤ t.lineLen - 1 by omega
      line := show t.lineLen - 1 ≤ 255 by omega }
  · refine (pullByte_spec (by omega) valid.buffer).bind fun buf length => ?_
    have shorter : Valid { t with
        lineBuf := buf, lineLen := t.lineLen - 1, lineCursor := t.lineCursor - 1,
        curCol := t.curCol - 1 } :=
      { valid with
        buffer := length
        cursor := show t.lineCursor - 1 ≤ t.lineLen - 1 by omega
        line := show t.lineLen - 1 ≤ 255 by omega
        col := show t.curCol - 1 < t.cols by omega }
    refine redrawFrom_valid shorter ?_
    show t.curCol - 1 + (t.lineCursor - 1 - (t.lineCursor - 1)) < t.cols
    omega

/-! ## Completion -/

theorem printCandidates_valid (safe : Safe process) (found : List Bytes) :
    ∀ {t : Terminal}, Valid t → Holds (printCandidates process found t) Valid := by
  induction found with
  | nil => exact fun valid => valid
  | cons m rest last =>
    intro t valid
    cases rest with
    | nil => exact writeOutput_valid safe valid m
    | cons m' rest =>
      refine (writeOutput_valid safe valid m).bind fun s valid => ?_
      exact (writeOutput_valid safe valid _).bind fun s valid => last valid

theorem typeCommon_valid (safe : Safe process) (valid : Valid t) (found : List Bytes)
    (isCmd : Bool) (addition : Bytes) :
    Holds (typeCommon process found isCmd addition t) Valid := by
  have typed : Holds (addition.foldlM
      (fun (t : Terminal) b => if t.lineLen < 255 then typeByte process b t else pure t) t) Valid :=
    Holds.foldlM valid fun t b _ valid =>
      Holds.ite (fun room => typeByte_valid safe valid room b) fun _ => valid
  refine typed.bind fun s valid => ?_
  exact Holds.ite (fun only => typeByte_valid safe valid only.2.2 _) fun _ => valid

theorem showCandidates_valid (safe : Safe process) (valid : Valid t) (found : List Bytes) :
    Holds (showCandidates process found t) Valid := by
  refine (writeOutput_valid safe valid _).bind fun s valid => ?_
  refine (printCandidates_valid safe found valid).bind fun s valid => ?_
  refine (writeOutput_valid safe valid _).bind fun s valid => ?_
  refine (writeOutput_valid safe valid _).bind fun s valid => ?_
  exact reprintLine_valid safe valid (Nat.le_succ_of_le valid.line)

theorem completeTab_valid (safe : Safe process) (valid : Valid t) (entries : List Entry) :
    Holds (completeTab process entries t) Valid := by
  have line := valid.line
  have buffer := valid.buffer
  refine Holds.ite (fun _ => valid) fun _ => ?_
  refine (holds_sub (Nat.zero_le _) (by omega)).bind fun typed _ => ?_
  refine Holds.ite (fun _ => valid) fun _ => ?_
  exact Holds.ite (fun _ => typeCommon_valid safe valid _ _ _) fun _ =>
    showCandidates_valid safe valid _

/-! ## Keys -/

theorem perform_valid (safe : Safe process) (valid : Valid t) (effect : Effect) :
    Holds (perform process effect t) Valid := by
  cases effect with
  | output bytes => exact writeOutput_valid safe valid bytes
  | clear => exact clearCells_valid valid defaultCell
  | capture cap => exact { valid with }

theorem remember_valid (valid : Valid t) (line : Bytes) : Valid (remember line t) := by
  rw [remember]
  split
  · exact valid
  · exact { valid with place := Nat.le_refl _ }

/-- The line dropped and the history left. -/
theorem dropLine_valid (valid : Valid t) : Valid { t with
    lineLen := 0, lineCursor := 0, histPos := t.history.length, savedLine := [] } :=
  { valid with cursor := Nat.le_refl 0, line := Nat.zero_le 255, place := Nat.le_refl _ }

theorem enterKey_valid (safe : Safe process) (valid : Valid t) (out : Outside) :
    Holds (enterKey process out t) Valid := by
  refine (safe _ t valid).bind fun s valid => ?_
  have line := valid.line
  have buffer := valid.buffer
  refine (holds_sub (Nat.zero_le _) (by omega)).bind fun typed _ => ?_
  have ran : Holds (out.effects.foldlM (fun t effect => perform process effect t)
      (remember typed { s with
        lineLen := 0, lineCursor := 0, histPos := s.history.length, savedLine := [] })) Valid :=
    Holds.foldlM (remember_valid (dropLine_valid valid) typed) fun t effect _ valid =>
      perform_valid safe valid effect
  exact ran.bind fun s valid => writeOutput_valid safe valid _

theorem interruptKey_valid (safe : Safe process) (valid : Valid t) :
    Holds (interruptKey process t) Valid := by
  refine (writeOutput_valid safe valid _).bind fun s valid => ?_
  exact writeOutput_valid safe (dropLine_valid valid) _

theorem redrawKey_valid (safe : Safe process) (valid : Valid t) :
    Holds (redrawKey process t) Valid := by
  refine (writeOutput_valid safe (clearCells_valid valid _) _).bind fun s valid => ?_
  refine (reprintLine_valid safe valid (Nat.le_succ_of_le valid.line)).bind fun s valid => ?_
  have col := valid.col
  refine (holds_subIn valid.cursor).bind fun back _ => ?_
  exact { valid with col := show s.curCol - back < s.cols by omega }

/-- The key inserts no byte into the middle of the line in the last column. -/
def Fits (b : UInt8) (t : Terminal) : Prop :=
  0x20 ≤ b → b ≠ 0x7F → t.lineLen < 255 → t.lineCursor < t.lineLen → t.curCol + 1 < t.cols

theorem plainKey_valid (safe : Safe process) (valid : Valid t) {b : UInt8} (fits : Fits b t)
    (out : Outside) : Holds (plainKey process b out t) Valid := by
  have col := valid.col
  have cursor := valid.cursor
  refine Holds.ite (fun _ => enterKey_valid safe valid out) fun _ => ?_
  refine Holds.ite (fun _ => backspaceKey_valid safe valid) fun other => ?_
  refine Holds.ite (fun _ => interruptKey_valid safe valid) fun _ => ?_
  refine Holds.ite (fun _ => redrawKey_valid safe valid) fun _ => ?_
  refine Holds.ite (fun _ => { valid with
    cursor := Nat.zero_le _, col := show t.curCol - t.lineCursor < t.cols by omega }) fun _ => ?_
  refine Holds.ite (fun _ => ?_) fun _ => ?_
  · refine (holds_subIn cursor).bind fun fwd _ => ?_
    exact { valid with
      cursor := Nat.le_refl _, col := show min (t.curCol + fwd) (t.cols - 1) < t.cols by omega }
  refine Holds.ite (fun _ => completeTab_valid safe valid _) fun _ => ?_
  refine Holds.ite (fun printable => ?_) fun _ => safe b t valid
  refine Holds.ite (fun _ => typeByte_valid safe valid printable.2 b) fun inside => ?_
  refine insertByte_valid valid printable.2 ?_ b
  exact fits printable.1 (fun same => other (Or.inr same)) printable.2
    (Nat.lt_of_le_of_ne cursor inside)

/-! ## Resizing -/

theorem copyFitting_spec (valid : Valid t) {newCols newRows row : Nat}
    (inside : row < min newRows t.rows) {cells : List Cell}
    (area : cells.length = newCols * newRows) :
    Holds (copyFitting t newCols cells row) fun out => out.length = newCols * newRows := by
  refine Holds.foldlM area fun cells col member length => ?_
  have inCol := List.mem_range.mp member
  have old := cell_inside (show row < t.rows by omega) (show col < t.cols by omega)
  have new := cell_inside (show row < newRows by omega) (show col < newCols by omega)
  refine (holds_index (valid.area ▸ old)).bind fun cell _ => ?_
  refine (holds_setAt (length ▸ new)).mono fun out set => ?_
  rw [set, List.length_set, length]

theorem resizeTerm_valid (valid : Valid t) {cols rows : Nat}
    (fits : max cols 8 * max rows 4 < 2 ^ 64) : Holds (resizeTerm cols rows t) Valid := by
  refine Holds.ite (fun _ => valid) fun _ => ?_
  have copied : Holds ((List.range (min (max rows 4) t.rows)).foldlM (copyFitting t (max cols 8))
      (List.replicate (max cols 8 * max rows 4 % 2 ^ 64) t.blank))
      fun out => out.length = max cols 8 * max rows 4 :=
    Holds.foldlM (by rw [List.length_replicate, Nat.mod_eq_of_lt fits]) fun cells row member length =>
      copyFitting_spec valid (List.mem_range.mp member) length
  refine copied.bind fun cells length => ?_
  exact { valid with
    area := length
    col := show min t.curCol (max cols 8 - 1) < max cols 8 by omega
    row := show min t.curRow (max rows 4 - 1) < max rows 4 by omega }

/-! ## Sessions -/

/-- The keys of a list all fit, each where it is typed. -/
def AllFit (process : UInt8 → Terminal → Checked Terminal) (out : Outside) :
    Bytes → Terminal → Prop
  | [], _ => True
  | b :: rest, t => Fits b t ∧ ∀ s, plainKey process b out t = .ok s → AllFit process out rest s

/-- What an event must meet to leave the terminal valid. -/
def Tame (depth : Nat) (t : Terminal) : Event → Prop
  | .key b out =>
    AllFit (processByte depth) out (if b = 0x16 then pasted (out.clipboard.getD []) else [b]) t
  | .output _ => True
  | .resize cols rows => max cols 8 * max rows 4 < 2 ^ 64

/-- The events are tame, each where it happens. -/
def TameRun (depth : Nat) : Terminal → List Event → Prop
  | _, [] => True
  | t, e :: rest => Tame depth t e ∧ ∀ s, step depth t e = .ok s → TameRun depth s rest

theorem keys_valid (safe : Safe process) (out : Outside) (bytes : Bytes) :
    ∀ {t : Terminal}, Valid t → AllFit process out bytes t →
      Holds (bytes.foldlM (fun t b => plainKey process b out t) t) Valid := by
  induction bytes with
  | nil => exact fun valid _ => valid
  | cons b rest last =>
    intro t valid fit
    rw [List.foldlM_cons]
    refine (plainKey_valid safe valid fit.1 out).returned.bind fun s typed => ?_
    exact last typed.2 (fit.2 s typed.1)

theorem step_valid (depth : Nat) (valid : Valid t) {e : Event} (tame : Tame depth t e) :
    Holds (step depth t e) Valid := by
  have safe := processByte_safe depth
  cases e with
  | key b out =>
    have fit : AllFit _ _ (if b = 0x16 then _ else _) _ := tame
    refine Holds.ite (fun paste => ?_) fun other => ?_
    · rw [if_pos paste] at fit
      exact keys_valid safe out _ valid fit
    · rw [if_neg other] at fit
      exact plainKey_valid safe valid fit.1 out
  | output bytes => exact writeOutput_valid safe valid bytes
  | resize cols rows => exact resizeTerm_valid valid tame

theorem spawn_valid (depth : Nat) : Holds (spawn depth) Valid := by
  have start : Valid empty :=
    ⟨List.length_replicate, by decide, by decide, List.length_replicate, Nat.le_refl 0,
      Nat.zero_le 255, Nat.le_refl 0⟩
  rw [spawn]
  exact Holds.foldlM start fun t line _ valid =>
    writeOutput_valid (processByte_safe depth) valid line

theorem steps_valid (depth : Nat) (events : List Event) :
    ∀ {t : Terminal}, Valid t → TameRun depth t events →
      ∀ front, front <+: events → Holds (front.foldlM (step depth) t) Valid := by
  induction events with
  | nil =>
    intro t valid _ front isFront
    rw [List.prefix_nil.mp isFront]
    exact valid
  | cons e rest last =>
    intro t valid tame front isFront
    cases front with
    | nil => exact valid
    | cons e' front =>
      obtain ⟨rfl, inside⟩ := List.cons_prefix_cons.mp isFront
      rw [List.foldlM_cons]
      refine (step_valid depth valid tame.1).returned.bind fun s done => ?_
      exact last done.2 (tame.2 s done.1) front inside

/-- Nothing outside the terminal, and a command that does nothing. -/
def nothing : Outside := ⟨none, [], [], []⟩

/-- A terminal as it starts, with other cells, the cursor and the colours elsewhere. -/
def Idle (row col : Nat) (t : Terminal) : Prop :=
  ∃ cells fg bg, cells.length = 1920 ∧ t =
    { empty with cells := cells, curRow := row, curCol := col, curFg := fg, curBg := bg }

/-- The bytes take such a terminal from one place to another. -/
def Moves (bytes : Bytes) (row col row' col' : Nat) : Prop :=
  ∀ t, Idle row col t → ∃ s, Idle row' col' s ∧ writeOutput (processByte 1) bytes t = .ok s

theorem Idle.plain {row col : Nat} {t : Terminal} (idle : Idle row col t) (bytes : Bytes) :
    writeOutput (processByte 1) bytes t = bytes.foldlM (fun t b => processByte 1 b t) t := by
  obtain ⟨cells, fg, bg, _, rfl⟩ := idle
  rfl

theorem Moves.append {front rest : Bytes} {row col row' col' row'' col'' : Nat}
    (first : Moves front row col row' col') (second : Moves rest row' col' row'' col'') :
    Moves (front ++ rest) row col row'' col'' := by
  intro t idle
  obtain ⟨s, still, ran⟩ := first t idle
  obtain ⟨u, last, ran'⟩ := second s still
  refine ⟨u, last, ?_⟩
  rw [idle.plain] at ran ⊢
  rw [still.plain] at ran'
  rw [List.foldlM_append, bind_of_ok ran, ran']

theorem setCell_ok {t : Terminal} (inside : t.curRow * t.cols + t.curCol < t.cells.length)
    (cell : Cell) :
    t.setCell cell =
      .ok { t with cells := t.cells.set (t.curRow * t.cols + t.curCol) cell } := by
  rw [setCell, setAt, if_pos inside]
  rfl

/-- A printable byte that does not fill the row. -/
theorem processByte_printable {t : Terminal} {b : UInt8} (print : 0x20 ≤ b ∧ b ≠ 0x7F)
    (normal : t.esc = .normal) (inside : t.curRow * t.cols + t.curCol < t.cells.length)
    (room : t.curCol + 1 < t.cols) :
    processByte 1 b t = .ok { t with
      cells := t.cells.set (t.curRow * t.cols + t.curCol) ⟨b, t.curFg, t.curBg⟩
      curCol := t.curCol + 1 } := by
  obtain ⟨above, other⟩ := print
  have noLine : ¬ b = chr '\n' := by
    rintro rfl
    exact absurd above (by decide)
  have noReturn : ¬ b = chr '\r' := by
    rintro rfl
    exact absurd above (by decide)
  have noBack : ¬ (b = 0x08 ∨ b = 0x7F) := by
    rintro (rfl | rfl)
    · exact absurd above (by decide)
    · exact other rfl
  have noEscape : ¬ b = 0x1B := by
    rintro rfl
    exact absurd above (by decide)
  have dispatch : processByte 1 b t = processNormal b t := by rw [processByte, processWith, normal]
  rw [dispatch, processNormal, if_neg noLine, if_neg noReturn, if_neg noBack, if_neg noEscape, if_pos above,
    putChar, setCell_ok inside]
  change (if t.cols ≤ t.curCol + 1 then _ else _) = _
  rw [if_neg (by omega)]
  rfl

theorem moves_text {text : Bytes} (printable : text.all (fun b => 0x20 ≤ b && b != 0x7F) = true)
    {row : Nat} (inRow : row < 24) :
    ∀ {col : Nat}, col + text.length < 80 → Moves text row col row (col + text.length) := by
  induction text with
  | nil => exact fun _ t idle => ⟨t, idle, by rw [idle.plain]; rfl⟩
  | cons b text rest =>
    intro col room t idle
    rw [List.all_cons, Bool.and_eq_true] at printable
    obtain ⟨print, printable⟩ := printable
    have first : 0x20 ≤ b ∧ b ≠ 0x7F := by simpa using print
    rw [List.length_cons] at room ⊢
    have step : ∃ s, Idle row (col + 1) s ∧ processByte 1 b t = .ok s := by
      obtain ⟨cells, fg, bg, length, rfl⟩ := idle
      refine ⟨_, ?_, processByte_printable first rfl ?_ ?_⟩
      · exact ⟨_, fg, bg, List.length_set.trans length, rfl⟩
      · show row * 80 + col < cells.length
        omega
      · show col + 1 < 80
        omega
    obtain ⟨s, still, stepped⟩ := step
    obtain ⟨u, last, ran⟩ :=
      rest printable (by omega) s still
    rw [still.plain] at ran
    rw [idle.plain, List.foldlM_cons, bind_of_ok stepped]
    exact ⟨u, by rwa [Nat.add_assoc, Nat.add_comm 1] at last, ran⟩

theorem moves_newline {row col : Nat} (inside : row + 1 < 24) :
    Moves (chars ['\r', '\n']) row col (row + 1) 0 := by
  rintro t ⟨cells, fg, bg, length, rfl⟩
  refine ⟨_, ⟨cells, fg, bg, length, rfl⟩, ?_⟩
  have below : ¬ 24 ≤ row + 1 := by omega
  have next : newline { empty with
      cells := cells, curRow := row, curCol := 0, curFg := fg, curBg := bg } = .ok { empty with
        cells := cells, curRow := row + 1, curCol := 0, curFg := fg, curBg := bg } := by
    rw [newline]
    exact if_neg below
  exact bind_of_ok next _

theorem setColour_colours (t : Terminal) (parts : List Bytes) :
    ∃ fg bg, parts.foldl setColour t = { t with curFg := fg, curBg := bg } := by
  induction parts generalizing t with
  | nil => exact ⟨t.curFg, t.curBg, rfl⟩
  | cons part parts rest =>
    have first : ∃ fg bg, t.setColour part = { t with curFg := fg, curBg := bg } := by
      rw [setColour]
      split
      · exact ⟨_, _, rfl⟩
      · split
        · exact ⟨_, t.curBg, rfl⟩
        · exact ⟨t.curFg, t.curBg, rfl⟩
    obtain ⟨fg, bg, same⟩ := first
    obtain ⟨fg', bg', same'⟩ := rest { t with curFg := fg, curBg := bg }
    exact ⟨fg', bg', by rw [List.foldl_cons, same, same']⟩

/-- The bytes of a parameter are kept. -/
theorem processByte_params {digits : Bytes} (plain : digits.any isAlphabetic = false) :
    ∀ {t : Terminal} {params : Bytes}, t.esc = .csi params →
      digits.foldlM (fun t b => processByte 1 b t) t =
        .ok { t with esc := .csi (params ++ digits) } := by
  induction digits with
  | nil =>
    intro t params inside
    rw [List.append_nil, ← inside]
    rfl
  | cons b digits rest =>
    intro t params inside
    rw [List.any_cons, Bool.or_eq_false_iff] at plain
    have kept : processByte 1 b t = .ok { t with esc := .csi (params ++ [b]) } := by
      rw [processByte, processWith, inside]
      change (if isAlphabetic b = true then _ else _) = _
      rw [if_neg (by rw [plain.1]; decide)]
      rfl
    rw [List.foldlM_cons, bind_of_ok kept,
      rest plain.2 rfl, List.append_assoc]
    rfl

/-- A whole escape sequence with parameters does what its last byte says. -/
theorem writeOutput_csi {t : Terminal} (params : Bytes) (cmd : UInt8) (visible : t.capture = none)
    (normal : t.esc = .normal) (plain : params.any isAlphabetic = false)
    (last : isAlphabetic cmd = true) :
    writeOutput (processByte 1) (0x1B :: chr '[' :: (params ++ [cmd])) t =
      (handleCsi (loadHistoryLine (processByte 0)) params cmd { t with esc := .csi params } >>=
        fun t => pure { t with esc := .normal }) := by
  have escape : processByte 1 0x1B t = .ok { t with esc := .esc } := by
    rw [processByte, processWith, normal]
    rfl
  have bracket : processByte 1 (chr '[') { t with esc := .esc } = .ok { t with esc := .csi [] } :=
    rfl
  have kept := processByte_params plain (t := { t with esc := .csi [] }) rfl
  have printed : writeOutput (processByte 1) (0x1B :: chr '[' :: (params ++ [cmd])) t =
      (0x1B :: chr '[' :: (params ++ [cmd])).foldlM (fun t b => processByte 1 b t) t := by
    rw [writeOutput, visible]
  rw [printed, List.foldlM_cons, bind_of_ok escape, List.foldlM_cons, bind_of_ok bracket, List.foldlM_append,
    bind_of_ok kept, List.foldlM_cons]
  change ((if isAlphabetic cmd = true then _ else _) >>= pure) = _
  rw [if_pos last, bind_pure]
  rfl

theorem moves_escape {row col : Nat} {digits : List Char}
    (plain : (chars digits).any isAlphabetic = false) : Moves (escape digits) row col row col := by
  rintro t ⟨cells, fg, bg, length, rfl⟩
  have bytes : escape digits = 0x1B :: chr '[' :: (chars digits ++ [chr 'm']) := by
    rw [escape, chars, List.map_append]
    rfl
  rw [bytes, writeOutput_csi _ _ rfl rfl plain (by decide), handleCsi, if_pos rfl]
  split
  · exact ⟨_, ⟨cells, _, _, length, rfl⟩, rfl⟩
  · obtain ⟨fg', bg', same⟩ := setColour_colours { empty with
      cells := cells, curRow := row, curCol := col, curFg := fg, curBg := bg
      esc := .csi (chars digits) } (((chars digits).dropWhile (· = chr '?')).splitOn (chr ';'))
    refine ⟨_, ⟨cells, fg', bg', length, rfl⟩, ?_⟩
    rw [same]
    rfl

theorem moves_lines {first second third fourth : Bytes} (moves1 : Moves first 0 0 1 0)
    (moves2 : Moves second 1 0 2 0) (moves3 : Moves third 2 0 4 0)
    (moves4 : Moves fourth 4 0 4 23) :
    ∃ t, Idle 4 23 t ∧ [first, second, third, fourth].foldlM
      (fun t line => writeOutput (processByte 1) line t) empty = .ok t := by
  have start : Idle 0 0 empty := ⟨_, _, _, List.length_replicate, rfl⟩
  obtain ⟨t1, idle1, ran1⟩ := moves1 _ start
  obtain ⟨t2, idle2, ran2⟩ := moves2 _ idle1
  obtain ⟨t3, idle3, ran3⟩ := moves3 _ idle2
  obtain ⟨t4, idle4, ran4⟩ := moves4 _ idle3
  refine ⟨t4, idle4, ?_⟩
  rw [List.foldlM_cons, bind_of_ok ran1, List.foldlM_cons, bind_of_ok ran2, List.foldlM_cons,
    bind_of_ok ran3, List.foldlM_cons, bind_of_ok ran4]
  rfl

theorem spawn_idle : ∃ t, Idle 4 23 t ∧ spawn 1 = .ok t := by
  rw [spawn, greeting]
  refine moves_lines ?_ ?_ ?_ ?_
  · refine Moves.append (Moves.append (Moves.append (Moves.append (Moves.append (Moves.append
      (Moves.append (Moves.append (Moves.append (moves_escape (by decide))
        (moves_text (by decide) (by decide) (by decide))) (moves_escape (by decide)))
          (moves_text (by decide) (by decide) (by decide))) (moves_escape (by decide)))
            (moves_text (by decide) (by decide) (by decide)))
              (moves_text (by decide) (by decide) (by decide)))
                (moves_text (by decide) (by decide) (by decide))) (moves_escape (by decide)))
                  (moves_newline (by decide))
  · refine Moves.append (Moves.append (Moves.append (moves_escape (by decide))
        (moves_text (by decide) (by decide) (by decide))) (moves_escape (by decide)))
          (moves_newline (by decide))
  · have lines : ∀ col, Moves (chars ['\r', '\n', '\r', '\n']) 2 col 4 0 := fun _ =>
      Moves.append (moves_newline (by decide)) (moves_newline (by decide))
    exact Moves.append (Moves.append (Moves.append (Moves.append (Moves.append (Moves.append
      (Moves.append (moves_escape (by decide)) (moves_text (by decide) (by decide) (by decide)))
        (moves_text (by decide) (by decide) (by decide)))
          (moves_text (by decide) (by decide) (by decide)))
            (moves_text (by decide) (by decide) (by decide)))
              (moves_text (by decide) (by decide) (by decide))) (moves_escape (by decide))) (lines _)
  · rw [promptHome, promptHead]
    exact Moves.append (Moves.append (Moves.append (Moves.append (Moves.append (Moves.append
      (Moves.append (Moves.append (Moves.append (Moves.append (moves_escape (by decide))
        (moves_text (by decide) (by decide) (by decide))) (moves_escape (by decide)))
          (moves_text (by decide) (by decide) (by decide))) (moves_escape (by decide)))
            (moves_text (by decide) (by decide) (by decide))) (moves_escape (by decide)))
              (moves_text (by decide) (by decide) (by decide)))
                (moves_text (by decide) (by decide) (by decide))) (moves_escape (by decide)))
                  (moves_text (by decide) (by decide) (by decide))

def edge : List Event :=
  [.key (chr 'a') nothing, .key (chr 'b') nothing, .output [0x1B, chr '[', chr 'D'],
    .output [0x1B, chr '[', chr '2', chr '4', chr ';', chr '8', chr '0', chr 'H'],
    .key (chr 'x') nothing, .output [chr 'z']]

/-- A terminal that starts a session, with a line of this length. -/
def typing (cells : List Cell) (buf : Bytes) (fg bg : UInt32) (row col len cursor : Nat) : Terminal :=
  { empty with
    cells := cells, curRow := row, curCol := col, curFg := fg, curBg := bg
    lineBuf := buf, lineLen := len, lineCursor := cursor }

/-- Such a terminal at a place of the screen, its buffers whole. -/
def Typing (row col len cursor : Nat) (t : Terminal) : Prop :=
  ∃ cells buf fg bg, cells.length = 1920 ∧ buf.length = 256 ∧
    t = typing cells buf fg bg row col len cursor

theorem setAt_ok {α : Type} {buf : List α} {i : Nat} {a : α} (inside : i < buf.length) :
    setAt buf i a = .ok (buf.set i a) := by
  rw [setAt, if_pos inside]
  rfl

theorem index_ok {α : Type} {buf : List α} {i : Nat} (inside : i < buf.length) :
    index buf i = .ok buf[i] := by
  rw [index, List.getElem?_eq_getElem inside]
  rfl

/-- A printable key goes into the line. -/
theorem plainKey_printable {process : UInt8 → Terminal → Checked Terminal} {t : Terminal} {b : UInt8}
    {out : Outside} (print : 0x20 ≤ b ∧ b < 0x7F) (room : t.lineLen < 255) :
    plainKey process b out t =
      if t.lineCursor = t.lineLen then typeByte process b t else insertByte b t := by
  have apart : ∀ c : UInt8, c < 0x20 ∨ c = 0x7F → b ≠ c := by
    rintro c (control | rfl) rfl
    · exact absurd print.1 (UInt8.not_le.mpr control)
    · exact absurd print.2 (by decide)
  rw [plainKey, if_neg (not_or.mpr ⟨apart _ (by decide), apart _ (by decide)⟩),
    if_neg (not_or.mpr ⟨apart _ (by decide), apart _ (by decide)⟩), if_neg (apart _ (by decide)),
    if_neg (apart _ (by decide)), if_neg (apart _ (by decide)), if_neg (apart _ (by decide)),
    if_neg (apart _ (by decide)), if_pos ⟨print.1, room⟩]

theorem step_printable {t : Terminal} {b : UInt8} (print : 0x20 ≤ b ∧ b < 0x7F)
    (room : t.lineLen < 255) :
    step 1 t (.key b nothing) =
      if t.lineCursor = t.lineLen then typeByte (processByte 1) b t else insertByte b t := by
  have noPaste : b ≠ 0x16 := by
    rintro rfl
    exact absurd print.1 (by decide)
  rw [step, sendKey, if_neg noPaste, plainKey_printable print room]

theorem typed_last {t : Terminal} {b : UInt8} {col len : Nat} (print : 0x20 ≤ b ∧ b < 0x7F)
    (room : len < 255) (inCol : col + 1 < 80) (start : Typing 4 col len len t) :
    ∃ s, Typing 4 (col + 1) (len + 1) (len + 1) s ∧ step 1 t (.key b nothing) = .ok s := by
  obtain ⟨cells, buf, fg, bg, area, whole, rfl⟩ := start
  have printable : 0x20 ≤ b ∧ b ≠ 0x7F := ⟨print.1, by
    rintro rfl
    exact absurd print.2 (by decide)⟩
  have ends : (typing cells buf fg bg 4 col len len).lineCursor =
    (typing cells buf fg bg 4 col len len).lineLen := rfl
  rw [step_printable print room, if_pos ends, typeByte]
  refine ⟨_, ⟨_, buf.set len b, fg, bg, List.length_set.trans area, List.length_set.trans whole, rfl⟩,
    (bind_of_ok (setAt_ok (by show len < buf.length; omega)) _).trans
      (processByte_printable printable rfl ?_ inCol)⟩
  show 4 * 80 + col < cells.length
  omega

theorem inserted_last {t : Terminal} (start : Typing 23 79 2 1 t) :
    ∃ s, Typing 23 80 3 2 s ∧ step 1 t (.key (chr 'x') nothing) = .ok s := by
  obtain ⟨cells, buf, fg, bg, area, whole, rfl⟩ := start
  have middle : ¬ (typing cells buf fg bg 23 79 2 1).lineCursor =
    (typing cells buf fg bg 23 79 2 1).lineLen := (by decide : ¬ 1 = 2)
  rw [step_printable (by decide) (by decide : 2 < 255), if_neg middle, insertByte]
  have pushed : pushByte buf 2 = .ok (buf.set 2 buf[1]) :=
    (bind_of_ok (index_ok (by omega)) _).trans (setAt_ok (by omega))
  have moved : [2].foldlM pushByte buf = .ok (buf.set 2 buf[1]) := bind_of_ok pushed _
  generalize same : buf.set 2 buf[1] = shifted at moved
  have whole' : shifted.length = 256 := by rw [← same, List.length_set, whole]
  have set : setAt shifted 1 (chr 'x') = .ok (shifted.set 1 (chr 'x')) := setAt_ok (by omega)
  generalize same' : shifted.set 1 (chr 'x') = edited at set
  have whole'' : edited.length = 256 := by rw [← same', List.length_set, whole']
  have drawn : redrawByte (typing cells edited fg bg 23 79 3 2) 1 =
      .ok (typing (cells.set 1919 ⟨edited[1], fg, bg⟩) edited fg bg 23 80 3 2) := by
    have inCol : (typing cells edited fg bg 23 79 3 2).curCol <
        (typing cells edited fg bg 23 79 3 2).cols := (by decide : 79 < 80)
    rw [redrawByte, if_pos inCol]
    refine (bind_of_ok (index_ok (by show 1 < edited.length; omega)) _).trans ?_
    exact bind_of_ok (setCell_ok (by show 1919 < cells.length; omega) _) _
  refine ⟨typing (cells.set 1919 ⟨edited[1], fg, bg⟩) edited fg bg 23 80 3 2,
    ⟨_, _, _, _, List.length_set.trans area, whole'', rfl⟩, ?_⟩
  refine (bind_of_ok moved _).trans ((bind_of_ok set _).trans ?_)
  have redrawn : [1, 2].foldlM redrawByte (typing cells edited fg bg 23 79 3 2) =
      .ok (typing (cells.set 1919 ⟨edited[1], fg, bg⟩) edited fg bg 23 80 3 2) :=
    bind_of_ok drawn _
  exact bind_of_ok redrawn _

theorem lost_last {t : Terminal} (start : Typing 23 80 3 2 t) :
    step 1 t (.output [chr 'z']) = .error .fault := by
  obtain ⟨cells, buf, fg, bg, area, whole, rfl⟩ := start
  have outside : setCell (typing cells buf fg bg 23 80 3 2) ⟨chr 'z', fg, bg⟩ = .error .fault := by
    rw [setCell, setAt, if_neg (by show ¬ 1920 < cells.length; omega)]
    rfl
  exact congrArg (fun x : Checked Terminal => (x >>= _) >>= _) outside

/-- Two bytes typed, the cursor moved left between them and, by output, to the last cell of the
screen, a byte inserted there, and a byte of output. -/
def edgeSession : List Event :=
  [.key (chr 'a') nothing, .key (chr 'b') nothing, .output [0x1B, chr '[', chr 'D'],
    .output [0x1B, chr '[', chr '2', chr '4', chr ';', chr '8', chr '0', chr 'H'],
    .key (chr 'x') nothing, .output [chr 'z']]

set_option maxRecDepth 16000 in
theorem edgeSession_faults : run 1 edgeSession = .error .fault := by
  obtain ⟨t0, idle, spawned⟩ := spawn_idle
  have start : Typing 4 23 0 0 t0 := by
    obtain ⟨cells, fg, bg, area, rfl⟩ := idle
    exact ⟨cells, List.replicate 256 0, fg, bg, area, List.length_replicate, rfl⟩
  obtain ⟨t1, typing1, ran1⟩ := typed_last (b := chr 'a') (by decide) (by decide) (by decide) start
  obtain ⟨t2, typing2, ran2⟩ := typed_last (b := chr 'b') (by decide) (by decide) (by decide) typing1
  have left : ∃ s, Typing 4 24 2 1 s ∧ step 1 t2 (.output [0x1B, chr '[', chr 'D']) = .ok s := by
    obtain ⟨cells, buf, fg, bg, area, whole, rfl⟩ := typing2
    refine ⟨_, ⟨cells, buf, fg, bg, area, whole, rfl⟩, ?_⟩
    exact (writeOutput_csi [] (chr 'D') (t := typing cells buf fg bg 4 25 2 2) rfl rfl (by decide)
      (by decide)).trans rfl
  obtain ⟨t3, typing3, ran3⟩ := left
  have placed : ∃ s, Typing 23 79 2 1 s ∧ step 1 t3
      (.output [0x1B, chr '[', chr '2', chr '4', chr ';', chr '8', chr '0', chr 'H']) = .ok s := by
    obtain ⟨cells, buf, fg, bg, area, whole, rfl⟩ := typing3
    have place : position [chr '2', chr '4', chr ';', chr '8', chr '0'] = (23, 79) := by decide
    refine ⟨_, ⟨cells, buf, fg, bg, area, whole, rfl⟩, ?_⟩
    refine (writeOutput_csi [chr '2', chr '4', chr ';', chr '8', chr '0'] (chr 'H')
      (t := typing cells buf fg bg 4 24 2 1) rfl rfl (by decide) (by decide)).trans ?_
    rw [handleCsi, if_neg (by decide), if_neg (by decide), if_pos (by decide)]
    exact congrArg (fun place : Nat × Nat => (.ok { typing cells buf fg bg 23 79 2 1 with
      curRow := min place.1 23, curCol := min place.2 79 } : Checked Terminal)) place
  obtain ⟨t4, typing4, ran4⟩ := placed
  obtain ⟨t5, typing5, ran5⟩ := inserted_last typing4
  rw [run, bind_of_ok spawned, edgeSession, List.foldlM_cons, bind_of_ok ran1, List.foldlM_cons,
    bind_of_ok ran2, List.foldlM_cons, bind_of_ok ran3, List.foldlM_cons, bind_of_ok ran4,
    List.foldlM_cons, bind_of_ok ran5, List.foldlM_cons, lost_last typing5]
  rfl

end RustyPenguin.Term.Terminal
