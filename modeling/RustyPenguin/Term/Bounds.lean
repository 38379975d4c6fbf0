import RustyPenguin.Term.Keys

/-!
# Nothing of the terminal is out of range

A terminal is valid when its grid has an area's cells, the cursor is inside it, the line fits its
buffer with its cursor inside, and the position in the history is at most its end. Every key, all
output and every resizing keep this and index nothing out of range, except that a byte inserted in
the middle of the line with the cursor in the last column leaves the cursor behind that column.
-/

set_option autoImplicit false

namespace RustyPenguin.Term.Terminal

open Files Checked

structure Valid (t : Terminal) : Prop where
  area : t.cells.length = t.cols * t.rows
  col : t.curCol < t.cols
  row : t.curRow < t.rows
  buffer : t.lineBuf.length = 256
  cursor : t.lineCursor ≤ t.lineLen
  line : t.lineLen ≤ 255
  place : t.histPos ≤ t.history.length

variable {t : Terminal}

/-! ## The grid -/

theorem cell_inside {cols rows row col : Nat} (inRow : row < rows) (inCol : col < cols) :
    row * cols + col < cols * rows := by
  calc row * cols + col < row * cols + cols := Nat.add_lt_add_left inCol _
    _ = (row + 1) * cols := (Nat.succ_mul row cols).symm
    _ ≤ rows * cols := Nat.mul_le_mul_right cols inRow
    _ = cols * rows := Nat.mul_comm rows cols

/-- A terminal with other cells, as many of them. -/
def SameButCells (t s : Terminal) : Prop :=
  ∃ cells, cells.length = t.cells.length ∧ s = { t with cells := cells }

theorem SameButCells.valid {s : Terminal} (same : SameButCells t s) (valid : Valid t) : Valid s := by
  obtain ⟨cells, length, rfl⟩ := same
  exact { valid with area := length.trans valid.area }

theorem setCell_spec (area : t.cells.length = t.cols * t.rows) (inCol : t.curCol < t.cols)
    (inRow : t.curRow < t.rows) (cell : Cell) :
    Holds (t.setCell cell) (SameButCells t) := by
  refine (holds_setAt (area ▸ cell_inside inRow inCol)).bind fun cells set => ?_
  exact ⟨cells, by rw [set, List.length_set], rfl⟩

theorem copyRow_spec {cols rows row : Nat} (inside : row + 1 < rows) {cells : List Cell}
    (area : cells.length = cols * rows) :
    Holds (copyRow cols cells row) fun out => out.length = cols * rows := by
  refine Holds.foldlM area fun cells col member length => ?_
  have inCol := List.mem_range.mp member
  refine (holds_index (length ▸ cell_inside inside inCol)).bind fun cell _ => ?_
  refine (holds_setAt (length ▸ cell_inside (by omega) inCol)).mono fun out set => ?_
  rw [set, List.length_set, length]

theorem scrollUp_spec (area : t.cells.length = t.cols * t.rows) (some : 0 < t.rows) :
    Holds t.scrollUp (SameButCells t) := by
  refine (holds_subIn some).bind fun last isLast => ?_
  subst isLast
  have copied : Holds ((List.range (t.rows - 1)).foldlM (copyRow t.cols) t.cells)
      fun out => out.length = t.cols * t.rows :=
    Holds.foldlM area fun cells row member length =>
      copyRow_spec (by have := List.mem_range.mp member; omega) length
  refine copied.bind fun cells length => ?_
  have blanked : Holds ((List.range t.cols).foldlM
      (fun cells col => setAt cells ((t.rows - 1) * t.cols + col) t.blank) cells)
      fun out => out.length = t.cols * t.rows := by
    refine Holds.foldlM length fun cells col member length => ?_
    have inside := cell_inside (show t.rows - 1 < t.rows by omega) (List.mem_range.mp member)
    refine (holds_setAt (length ▸ inside)).mono fun out set => ?_
    rw [set, List.length_set, length]
  refine blanked.bind fun out length => ?_
  exact ⟨out, length.trans area.symm, rfl⟩

theorem newline_valid (valid : Valid { t with curCol := 0 }) : Holds t.newline Valid := by
  have inRow : t.curRow < t.rows := valid.row
  refine Holds.ite (fun below => ?_) fun inside => ?_
  · refine (scrollUp_spec (t := { t with curCol := 0, curRow := t.curRow + 1 }) valid.area
      (show 0 < t.rows by omega)).bind fun s same => ?_
    obtain ⟨cells, length, rfl⟩ := same
    exact { valid with area := length.trans valid.area, row := show t.rows - 1 < t.rows by omega }
  · exact { valid with row := Nat.lt_of_not_le inside }

theorem putChar_valid (valid : Valid t) (ch : UInt8) : Holds (t.putChar ch) Valid := by
  refine (setCell_spec valid.area valid.col valid.row _).bind fun s same => ?_
  obtain ⟨cells, length, rfl⟩ := same
  have some : 0 < t.cols := Nat.lt_of_le_of_lt (Nat.zero_le _) valid.col
  refine Holds.ite (fun _ => newline_valid ?_) fun inside => ?_
  · exact { valid with area := length.trans valid.area, col := some }
  · exact { valid with area := length.trans valid.area, col := Nat.lt_of_not_le inside }

theorem clearCells_valid (valid : Valid t) (cell : Cell) : Valid (t.clearCells cell) :=
  { valid with
    area := (List.length_map _).trans valid.area
    col := Nat.lt_of_le_of_lt (Nat.zero_le _) valid.col
    row := Nat.lt_of_le_of_lt (Nat.zero_le _) valid.row }

theorem setColour_valid (valid : Valid t) (part : Bytes) : Valid (t.setColour part) := by
  rw [setColour]
  split
  · exact { valid with }
  · split
    · exact { valid with }
    · exact valid

/-! ## The line -/

theorem pullByte_spec {buf : Bytes} {start n size : Nat} (inside : start + n < size)
    (length : buf.length = size) :
    Holds ((List.range' start n).foldlM pullByte buf) fun out => out.length = size := by
  refine Holds.foldlM length fun buf i member length => ?_
  have below := (List.mem_range'_1.mp member).2
  refine (holds_index (by omega)).bind fun b _ => ?_
  refine (holds_setAt (by omega)).mono fun out set => ?_
  rw [set, List.length_set, length]

theorem pushByte_spec {buf : Bytes} {start n size : Nat} (inside : start + n ≤ size)
    (length : buf.length = size) :
    Holds ((List.range' start n).reverse.foldlM pushByte buf) fun out => out.length = size := by
  refine Holds.foldlM length fun buf i member length => ?_
  have below := (List.mem_range'_1.mp (List.mem_reverse.mp member)).2
  refine (holds_index (by omega)).bind fun b _ => ?_
  refine (holds_setAt (by omega)).mono fun out set => ?_
  rw [set, List.length_set, length]

/-- Other cells, and the cursor further right by as many columns as there are up to the edge. -/
def Advanced (t : Terminal) (n : Nat) (s : Terminal) : Prop :=
  ∃ cells, cells.length = t.cells.length ∧
    s = { t with cells := cells, curCol := min t.cols (t.curCol + n) }

theorem redrawBytes_spec (items : List Nat) (inside : ∀ i ∈ items, i < 256) :
    ∀ {t : Terminal}, t.cells.length = t.cols * t.rows → t.curCol ≤ t.cols → t.curRow < t.rows →
      t.lineBuf.length = 256 → Holds (items.foldlM redrawByte t) (Advanced t items.length) := by
  induction items with
  | nil =>
    intro t area inCol inRow buffer
    exact ⟨t.cells, rfl, by rw [List.length_nil, Nat.add_zero, Nat.min_eq_right inCol]⟩
  | cons i items rest =>
    intro t area inCol inRow buffer
    rw [List.foldlM_cons, redrawByte]
    have later := @rest fun i member => inside i (List.mem_cons_of_mem _ member)
    by_cases fits : t.curCol < t.cols
    · rw [if_pos fits]
      have one : Holds (do
          let ch ← index t.lineBuf i
          let t ← t.setCell ⟨ch, t.curFg, t.curBg⟩
          pure { t with curCol := t.curCol + 1 }) (Advanced t 1) := by
        refine (holds_index (buffer ▸ inside i List.mem_cons_self)).bind fun ch _ => ?_
        refine (setCell_spec area fits inRow _).bind fun s same => ?_
        obtain ⟨cells, length, rfl⟩ := same
        exact ⟨cells, length, by rw [Nat.min_eq_right fits]⟩
      refine one.bind fun s advanced => ?_
      obtain ⟨cells, length, rfl⟩ := advanced
      refine (@later { t with cells := cells, curCol := min t.cols (t.curCol + 1) } (length.trans area)
        (Nat.min_le_left _ _) inRow buffer).mono fun s last => ?_
      obtain ⟨cells', length', rfl⟩ := last
      refine ⟨cells', length'.trans length, ?_⟩
      rw [List.length_cons]
      congr 1
      show min t.cols (min t.cols (t.curCol + 1) + items.length) = _
      omega
    · rw [if_neg fits, pure_bind]
      refine (later area inCol inRow buffer).mono fun s last => ?_
      obtain ⟨cells, length, rfl⟩ := last
      refine ⟨cells, length, ?_⟩
      rw [List.length_cons]
      congr 1
      omega

theorem redrawBlank_spec (area : t.cells.length = t.cols * t.rows) (inRow : t.curRow < t.rows) :
    Holds (redrawBlank t) fun s => ∃ cells col, cells.length = t.cells.length ∧
      t.curCol ≤ col ∧ s = { t with cells := cells, curCol := col } := by
  refine Holds.ite (fun fits => ?_) fun _ => ?_
  · refine (setCell_spec area fits inRow _).bind fun s same => ?_
    obtain ⟨cells, length, rfl⟩ := same
    exact ⟨cells, t.curCol + 1, length, Nat.le_succ _, rfl⟩
  · exact ⟨t.cells, t.curCol, rfl, Nat.le_refl _, rfl⟩

/-- The redrawing puts the cursor back where it is to be, if that is inside the row. -/
theorem redrawFrom_valid (valid : Valid t) {start : Nat}
    (inside : t.curCol + (t.lineCursor - start) < t.cols) :
    Holds (redrawFrom start t) Valid := by
  have line := valid.line
  have cursor := valid.cursor
  have bytes : ∀ i ∈ List.range' start (t.lineLen - start), i < 256 := fun i member => by
    have := List.mem_range'_1.mp member
    omega
  refine (redrawBytes_spec _ bytes valid.area (Nat.le_of_lt valid.col) valid.row
    valid.buffer).bind fun s drawn => ?_
  obtain ⟨cells, length, rfl⟩ := drawn
  refine (@redrawBlank_spec { t with
    cells := cells, curCol := min t.cols (t.curCol + (List.range' start (t.lineLen - start)).length) }
    (length.trans valid.area) valid.row).bind fun s blanked => ?_
  obtain ⟨cells', col, length', further, rfl⟩ := blanked
  rw [List.length_range'] at further
  have least : t.curCol + (t.lineCursor - start) ≤ col := by
    change min t.cols (t.curCol + (t.lineLen - start)) ≤ col at further
    omega
  rw [holds_pure]
  dsimp only
  rw [if_pos least]
  exact { valid with area := length'.trans (length.trans valid.area), col := inside }

theorem skipRight_valid (n : Nat) :
    ∀ {t : Terminal}, Valid t → t.lineCursor + n ≤ t.lineLen →
      Valid (skipRight n t) ∧ (skipRight n t).lineLen = t.lineLen := by
  induction n with
  | zero => exact fun valid _ => ⟨valid, rfl⟩
  | succ n rest =>
    intro t valid inside
    have col := valid.col
    exact rest (t := { t with
        curCol := min (t.curCol + 1) (t.cols - 1), lineCursor := t.lineCursor + 1 })
      { valid with
        col := show min (t.curCol + 1) (t.cols - 1) < t.cols by omega
        cursor := show t.lineCursor + 1 ≤ t.lineLen by omega }
      (show t.lineCursor + 1 + n ≤ t.lineLen by omega)

section Nested

variable {process : UInt8 → Terminal → Checked Terminal}

/-- Processing a byte indexes nothing out of range and keeps a terminal valid. -/
def Safe (process : UInt8 → Terminal → Checked Terminal) : Prop :=
  ∀ b t, Valid t → Holds (process b t) Valid

theorem processAll_valid (safe : Safe process) (valid : Valid t) (bytes : Bytes) :
    Holds (bytes.foldlM (fun t b => process b t) t) Valid :=
  Holds.foldlM valid fun t b _ valid => safe b t valid

theorem eraseBack_valid (safe : Safe process) (n : Nat) :
    ∀ {t : Terminal}, Valid t → n ≤ 255 → Holds (eraseBack process n t) Valid := by
  induction n with
  | zero => exact fun valid _ => valid
  | succ n rest =>
    intro t valid small
    have shorter : Valid { t with lineLen := n, lineCursor := n } :=
      { valid with cursor := Nat.le_refl n, line := by show n ≤ 255; omega }
    exact (safe 0x08 _ shorter).bind fun s valid => rest valid (by omega)

theorem eraseLineInput_valid (safe : Safe process) (valid : Valid t) :
    Holds (eraseLineInput process t) Valid := by
  have cursor := valid.cursor
  obtain ⟨skipped, length⟩ := skipRight_valid (t.lineLen - t.lineCursor) valid (by omega)
  exact eraseBack_valid safe _ skipped skipped.line

theorem loadHistoryLine_valid (safe : Safe process) (src : Bytes) (valid : Valid t) :
    Holds (loadHistoryLine process src t) Valid := by
  refine (eraseLineInput_valid safe valid).bind fun s valid => ?_
  have buffer := valid.buffer
  have small : min src.length 255 ≤ 255 := Nat.min_le_right _ _
  have loaded : Valid { s with
      lineBuf := src.take (min src.length 255) ++ s.lineBuf.drop (min src.length 255)
      lineLen := min src.length 255, lineCursor := min src.length 255 } :=
    { valid with
      buffer := by
        rw [List.length_append, List.length_take, List.length_drop]
        omega
      cursor := Nat.le_refl _
      line := small }
  exact Holds.ite (fun _ => processAll_valid safe loaded _) fun outside => absurd small (by omega)

end Nested

/-! ## Escape sequences -/

section Sequences

variable {load : Bytes → Terminal → Checked Terminal}

theorem saveLine_spec (valid : Valid t) :
    Holds (saveLine t) fun s => ∃ line, s = { t with savedLine := line } := by
  have line := valid.line
  have buffer := valid.buffer
  refine Holds.ite (fun _ => ?_) fun _ => ⟨t.savedLine, rfl⟩
  exact (holds_sub (Nat.zero_le _) (by omega)).bind fun saved _ => ⟨saved, rfl⟩

theorem historyUp_valid (loads : ∀ src t, Valid t → Holds (load src t) Valid) (valid : Valid t) :
    Holds (historyUp load t) Valid := by
  have place := valid.place
  refine Holds.ite (fun _ => valid) fun _ => ?_
  refine (saveLine_spec valid).bind fun s saved => ?_
  obtain ⟨line, rfl⟩ := saved
  refine Holds.ite (fun some => ?_) fun _ => { valid with }
  change 0 < t.histPos at some
  refine (holds_index (show t.histPos - 1 < t.history.length by omega)).bind fun entry _ => ?_
  exact loads entry _ { valid with place := show t.histPos - 1 ≤ t.history.length by omega }

theorem historyDown_valid (loads : ∀ src t, Valid t → Holds (load src t) Valid) (valid : Valid t) :
    Holds (historyDown load t) Valid := by
  refine Holds.ite (fun before => ?_) fun _ => valid
  have next : Valid { t with histPos := t.histPos + 1 } := { valid with place := before }
  have line : Holds (if t.histPos + 1 = t.history.length then pure t.savedLine
      else index t.history (t.histPos + 1)) fun _ => True := by
    refine Holds.ite (fun _ => trivial) fun inside => ?_
    exact (holds_index (by omega)).mono fun _ _ => trivial
  exact line.bind fun line _ => loads line _ next

theorem deleteHere_valid (valid : Valid t) : Holds (deleteHere t) Valid := by
  have line := valid.line
  refine Holds.ite (fun inside => ?_) fun _ => valid
  refine (pullByte_spec (by omega) valid.buffer).bind fun buf length => ?_
  have shorter : Valid { t with lineBuf := buf, lineLen := t.lineLen - 1 } :=
    { valid with
      buffer := length
      cursor := show t.lineCursor ≤ t.lineLen - 1 by omega
      line := show t.lineLen - 1 ≤ 255 by omega }
  refine redrawFrom_valid shorter ?_
  show t.curCol + (t.lineCursor - t.lineCursor) < t.cols
  rw [Nat.sub_self]
  exact valid.col

theorem handleCsi_valid (loads : ∀ src t, Valid t → Holds (load src t) Valid) (valid : Valid t)
    (params : Bytes) (cmd : UInt8) : Holds (handleCsi load params cmd t) Valid := by
  have col := valid.col
  have row := valid.row
  have cursor := valid.cursor
  have left : ∀ n, t.curCol - n < t.cols := fun n => by omega
  have right : ∀ n, min n (t.cols - 1) < t.cols := fun n => by omega
  have up : ∀ n, t.curRow - n < t.rows := fun n => by omega
  have down : ∀ n, min n (t.rows - 1) < t.rows := fun n => by omega
  rw [handleCsi]
  generalize params.dropWhile (· = chr '?') = p
  refine Holds.ite (fun _ => ?_) fun _ => ?_
  · rw [holds_pure]
    split
    · exact { valid with }
    · exact List.foldlRecOn _ _ valid fun t valid part _ => setColour_valid valid part
  refine Holds.ite (fun _ => clearCells_valid valid _) fun _ => ?_
  refine Holds.ite (fun _ => { valid with row := down _, col := right _ }) fun _ => ?_
  refine Holds.ite (fun _ => historyUp_valid loads valid) fun _ => ?_
  refine Holds.ite (fun _ => historyDown_valid loads valid) fun _ => ?_
  refine Holds.ite (fun _ => ?_) fun _ => ?_
  · rw [holds_pure]
    split
    · exact { valid with cursor := show t.lineCursor - 1 ≤ t.lineLen by omega, col := left 1 }
    · exact valid
  refine Holds.ite (fun _ => ?_) fun _ => ?_
  · rw [holds_pure]
    split
    · rename_i inside
      exact { valid with cursor := inside, col := right _ }
    · exact valid
  refine Holds.ite (fun _ => { valid with cursor := Nat.zero_le _, col := left _ }) fun _ => ?_
  refine Holds.ite (fun _ => ?_) fun _ => ?_
  · exact (holds_subIn cursor).bind fun fwd _ =>
      { valid with cursor := Nat.le_refl _, col := right _ }
  refine Holds.ite (fun _ => deleteHere_valid valid) fun _ => ?_
  refine Holds.ite (fun _ => { valid with row := up _ }) fun _ => ?_
  refine Holds.ite (fun _ => { valid with row := down _ }) fun _ => ?_
  refine Holds.ite (fun _ => { valid with col := right _ }) fun _ => ?_
  exact Holds.ite (fun _ => { valid with col := left _ }) fun _ => valid

end Sequences

/-! ## Bytes -/

theorem processNormal_valid (valid : Valid t) (b : UInt8) : Holds (processNormal b t) Valid := by
  have col := valid.col
  have first : 0 < t.cols := by omega
  refine Holds.ite (fun _ => newline_valid { valid with col := first }) fun _ => ?_
  refine Holds.ite (fun _ => { valid with col := first }) fun _ => ?_
  refine Holds.ite (fun _ => Holds.ite (fun _ => ?_) fun _ => valid) fun _ => ?_
  · have moved : Valid { t with curCol := t.curCol - 1 } :=
      { valid with col := show t.curCol - 1 < t.cols by omega }
    exact (setCell_spec moved.area moved.col moved.row _).mono fun s same => same.valid moved
  refine Holds.ite (fun _ => { valid with }) fun _ => ?_
  exact Holds.ite (fun _ => putChar_valid valid b) fun _ => valid

/-- A backspace leaves the line, so erasing a line takes as many of them as it has bytes. -/
theorem backspace_spec (depth : Nat) (valid : Valid t) :
    Holds (processByte depth 0x08 t) fun s => s.lineLen = t.lineLen := by
  have col := valid.col
  cases depth with
  | zero => trivial
  | succ depth =>
    rw [processByte, processWith]
    split
    · rw [processNormal, if_neg (by decide), if_neg (by decide), if_pos (by decide)]
      refine Holds.ite (fun _ => ?_) fun _ => rfl
      have moved : Valid { t with curCol := t.curCol - 1 } :=
        { valid with col := show t.curCol - 1 < t.cols by omega }
      refine (setCell_spec moved.area moved.col moved.row _).mono fun s same => ?_
      obtain ⟨cells, _, rfl⟩ := same
      rfl
    · rfl
    · rw [if_neg (by decide)]
      rfl

theorem processByte_safe (depth : Nat) : Safe (processByte depth) := by
  induction depth with
  | zero => exact fun _ _ _ => trivial
  | succ depth nested =>
    intro b t valid
    rw [processByte, processWith]
    split
    · exact processNormal_valid valid b
    · exact { valid with }
    · refine Holds.ite (fun _ => ?_) fun _ => { valid with }
      refine (handleCsi_valid (fun src t => loadHistoryLine_valid nested src) valid _ b).bind
        fun s valid => ?_
      exact { valid with }

end RustyPenguin.Term.Terminal
