import RustyPenguin.Editor.Cursor
import RustyPenguin.Foundation.Place

/-!
# The text editor is a text with a cursor

On a file of characters of one byte, and whatever the clipboard holds, every sequence of keys does on
the lines of the editor what the keys mean on a text with a cursor: it does not panic, the lines
joined are the text, the cursor is where the cursor of the text is, and what is copied and pasted
is the same (`typing_refines`).
-/

set_option autoImplicit false

namespace RustyPenguin.Editor

open Foundation Files TextEditor

/-! ## What the keys mean -/

/-- A text that is edited, with the state of the parser of the keys and the clipboard. -/
structure Draft where
  place : Place Char
  ansi : UInt8
  clipboard : Option Text

namespace Draft

/-- The characters of a text that are pasted. -/
def pasted (c : Char) : Bool := c = '\n' ∨ (0x20 ≤ c.toNat ∧ c.toNat < 0x7F)

/-- Characters at the cursor, one after the other. -/
def insertAll (place : Place Char) (text : Text) : Place Char := text.foldl Place.insert place

/-- The line of the cursor. -/
def line (place : Place Char) : Text := lastLine '\n' place.before ++ firstLine '\n' place.after

/-- A character key, which may also copy, paste or remove. -/
def type (d : Draft) (c : UInt8) : Draft :=
  if c = 0x03 then { d with clipboard := some (line d.place) }
  else if c = 0x16 then { d with place := insertAll d.place ((d.clipboard.getD []).filter pasted) }
  else if c = 0x0A ∨ c = 0x0D then { d with place := d.place.insert '\n' }
  else if c = 0x08 ∨ c = 0x7F then { d with place := d.place.backspace }
  else if c = 9 then { d with place := insertAll d.place (List.replicate tabWidth ' ') }
  else if 32 ≤ c ∧ c ≤ 126 then { d with place := d.place.insert (Char.ofUInt8 c) }
  else d

def act (d : Draft) : Key → Draft
  | .none => d
  | .up => { d with place := d.place.up '\n' }
  | .down => { d with place := d.place.down '\n' }
  | .left => { d with place := d.place.left }
  | .right => { d with place := d.place.right }
  | .home => { d with place := d.place.home '\n' }
  | .end => { d with place := d.place.toEnd '\n' }
  | .delete => { d with place := d.place.delete }
  | .char c => d.type c

def press (d : Draft) (key : UInt8) : Draft :=
  { d with ansi := (feed d.ansi key).1 }.act (feed d.ansi key).2

end Draft

/-! ## Pages of the editor -/

/-- The editor holds a page. -/
def Holds (s : TextEditor) (p : Page Char) : Prop := At s p.above p.front p.back p.below

/-- Every character has one byte. -/
def Ascii (lines : List Text) : Prop := ∀ line ∈ lines, ∀ c ∈ line, c.utf8Size = 1

theorem byteLen_of_ascii {line : Text} (ascii : ∀ c ∈ line, c.utf8Size = 1) :
    byteLen line = line.length := by
  induction line with
  | nil => rfl
  | cons c line ih =>
    rw [byteLen_cons, ascii c List.mem_cons_self,
      ih fun other later => ascii other (List.mem_cons_of_mem c later), List.length_cons,
      Nat.add_comm]

/-- A page of characters of one byte, with no newline in a line. -/
structure Fit (p : Page Char) : Prop where
  clean : p.Clean '\n'
  ascii : Ascii p.lines

namespace Fit

variable {p : Page Char}

theorem mem_line (p : Page Char) : p.front ++ p.back ∈ p.lines :=
  List.mem_append_right _ List.mem_cons_self

theorem front (fit : Fit p) : ∀ c ∈ p.front, c.utf8Size = 1 := fun c member =>
  fit.ascii _ (mem_line p) c (List.mem_append_left _ member)

theorem back (fit : Fit p) : ∀ c ∈ p.back, c.utf8Size = 1 := fun c member =>
  fit.ascii _ (mem_line p) c (List.mem_append_right _ member)

theorem moved {q : Page Char} (fit : Fit p) (clean : q.Clean '\n') (same : q.lines = p.lines) :
    Fit q := ⟨clean, same ▸ fit.ascii⟩

theorem insert (fit : Fit p) {c : Char} (other : c ≠ '\n') (one : c.utf8Size = 1) :
    Fit (p.insert c) := by
  refine ⟨fit.clean.insert other, ?_⟩
  intro line member d inLine
  rcases List.mem_append.mp member with above | rest
  · exact fit.ascii line (List.mem_append_left _ above) d inLine
  · rcases List.mem_cons.mp rest with rfl | below
    · simp only [Page.insert, List.append_assoc, List.mem_append, List.mem_singleton] at inLine
      rcases inLine with here | rfl | behind
      · exact fit.front d here
      · exact one
      · exact fit.back d behind
    · exact fit.ascii line (List.mem_append_right _ (List.mem_cons_of_mem _ below)) d inLine

theorem split (fit : Fit p) : Fit p.split := by
  refine ⟨fit.clean.split, ?_⟩
  intro line member d inLine
  simp only [Page.split, Page.lines, List.nil_append, List.mem_append, List.mem_cons,
    List.not_mem_nil, or_false] at member
  rcases member with (above | rfl) | rfl | below
  · exact fit.ascii line (List.mem_append_left _ above) d inLine
  · exact fit.front d inLine
  · exact fit.back d inLine
  · exact fit.ascii line (List.mem_append_right _ (List.mem_cons_of_mem _ below)) d inLine

theorem backspace (fit : Fit p) : Fit p.backspace := by
  refine ⟨fit.clean.backspace, ?_⟩
  obtain ⟨above, front, back, below⟩ := p
  have ascii := fit.ascii
  rcases List.eq_nil_or_concat' front with rfl | ⟨front, c, rfl⟩
  · rcases List.eq_nil_or_concat' above with rfl | ⟨above, line, rfl⟩
    · exact ascii
    · rw [Page.backspace]
      simp only [List.getLast?_nil, List.getLast?_concat, List.dropLast_concat]
      simp only [Ascii, Page.lines, List.append_assoc, List.singleton_append, List.mem_append,
        List.mem_cons, List.nil_append] at ascii ⊢
      rintro other (before | rfl | after) d inLine
      · exact ascii other (.inl before) d inLine
      · rcases List.mem_append.mp inLine with first | second
        · exact ascii line (.inr (.inl rfl)) d first
        · exact ascii back (.inr (.inr (.inl rfl))) d second
      · exact ascii other (.inr (.inr (.inr after))) d inLine
  · rw [Page.backspace]
    simp only [List.getLast?_concat, List.dropLast_concat]
    simp only [Ascii, Page.lines, List.mem_append, List.mem_cons] at ascii ⊢
    rintro other (before | rfl | after) d inLine
    · exact ascii other (.inl before) d inLine
    · refine ascii _ (.inr (.inl rfl)) d ?_
      rcases List.mem_append.mp inLine with first | second
      · exact List.mem_append_left _ (List.mem_append_left _ first)
      · exact List.mem_append_right _ second
    · exact ascii other (.inr (.inr after)) d inLine

theorem delete (fit : Fit p) : Fit p.delete := by
  refine ⟨fit.clean.delete, ?_⟩
  obtain ⟨above, front, back, below⟩ := p
  have ascii := fit.ascii
  cases back with
  | cons c back =>
    simp only [Page.delete, Ascii, Page.lines, List.mem_append, List.mem_cons] at ascii ⊢
    rintro other (before | rfl | after) d inLine
    · exact ascii other (.inl before) d inLine
    · refine ascii _ (.inr (.inl rfl)) d ?_
      rcases List.mem_append.mp inLine with first | second
      · exact List.mem_append_left _ first
      · exact List.mem_append_right _ (List.mem_cons_of_mem c second)
    · exact ascii other (.inr (.inr after)) d inLine
  | nil =>
    cases below with
    | nil => exact ascii
    | cons line below =>
      simp only [Page.delete, Ascii, Page.lines, List.append_nil, List.mem_append,
        List.mem_cons] at ascii ⊢
      rintro other (before | rfl | after) d inLine
      · exact ascii other (.inl before) d inLine
      · rcases List.mem_append.mp inLine with first | second
        · exact ascii front (.inr (.inl rfl)) d first
        · exact ascii line (.inr (.inr (.inl rfl))) d second
      · exact ascii other (.inr (.inr (.inr after))) d inLine

end Fit

/-! ## The keys leave the parser alone -/

section Ansi

variable {s s' : TextEditor}

theorem ansi_clampCursor (after : s.clampCursor = some s') : s'.ansi = s.ansi := by
  rw [TextEditor.clampCursor] at after
  obtain ⟨line, _, rfl⟩ := Option.map_eq_some_iff.mp after
  rfl

theorem ansi_breakLine (after : s.breakLine = some s') : s'.ansi = s.ansi := by
  simp only [TextEditor.breakLine, Option.bind_eq_bind, Option.bind_eq_some_iff] at after
  obtain ⟨line, _, tail, _, front, _, after⟩ := after
  split at after
  · cases after
    rfl
  · cases after

theorem ansi_insertChar {c : Char} (after : s.insertChar c = some s') : s'.ansi = s.ansi := by
  simp only [TextEditor.insertChar, Option.bind_eq_bind, Option.bind_eq_some_iff] at after
  obtain ⟨line, _, line', _, after⟩ := after
  cases after
  rfl

theorem ansi_deleteKey (after : s.deleteKey = some s') : s'.ansi = s.ansi := by
  simp only [TextEditor.deleteKey, Option.bind_eq_bind, Option.bind_eq_some_iff] at after
  obtain ⟨line, _, after⟩ := after
  split at after
  · obtain ⟨line', _, after⟩ := Option.bind_eq_some_iff.mp after
    cases after
    rfl
  · split at after
    · obtain ⟨next, _, after⟩ := Option.bind_eq_some_iff.mp after
      cases after
      rfl
    · cases after
      rfl

theorem ansi_backspace (after : s.backspace = some s') : s'.ansi = s.ansi := by
  rw [TextEditor.backspace] at after
  split at after
  · simp only [Option.bind_eq_bind, Option.bind_eq_some_iff] at after
    obtain ⟨line, _, line', _, after⟩ := after
    cases after
    rfl
  · split at after
    · simp only [Option.bind_eq_bind, Option.bind_eq_some_iff] at after
      obtain ⟨line, _, before, _, after⟩ := after
      cases after
      rfl
    · cases after
      rfl

end Ansi

/-! ## The keys on a page -/

/-- There is a line below. -/
theorem below_inside (line : Text) (below : List Text) (n : Nat) :
    n < n + (line :: below).length := by
  rw [List.length_cons]
  omega

namespace Holds

variable {s : TextEditor} {p : Page Char}

theorem insertAll (holds : Holds s p) (fit : Fit p) {c : Char} (other : c ≠ '
')
    (one : c.utf8Size = 1) (n : Nat) :
    ∃ s' q, s.insertTimes c n = some s' ∧ Holds s' q ∧ Fit q ∧
      q.place '
' = Draft.insertAll (p.place '
') (List.replicate n c) ∧ s'.ansi = s.ansi := by
  induction n generalizing s p with
  | zero => exact ⟨s, p, rfl, holds, fit, rfl, rfl⟩
  | succ n ih =>
    obtain ⟨s₁, inserted, there⟩ := At.insertChar holds one
    obtain ⟨s', q, rest, holds', fit', same, ansi⟩ := ih (s := s₁) (p := p.insert c) there
      (fit.insert other one)
    refine ⟨s', q, ?_, holds', fit', ?_, ansi.trans (ansi_insertChar inserted)⟩
    · rw [TextEditor.insertTimes, inserted]
      exact rest
    · rw [same, Page.place_insert]
      rfl

theorem pasteChars (holds : Holds s p) (fit : Fit p) (text : Text) :
    ∃ s' q, s.pasteChars text = some s' ∧ Holds s' q ∧ Fit q ∧
      q.place '
' = Draft.insertAll (p.place '
') (text.filter Draft.pasted) ∧
        s'.ansi = s.ansi := by
  induction text generalizing s p with
  | nil => exact ⟨s, p, rfl, holds, fit, rfl, rfl⟩
  | cons c text ih =>
    rw [TextEditor.pasteChars]
    by_cases newline : c = '
'
    · obtain ⟨s₁, broken, there⟩ := At.breakLine holds
      obtain ⟨s', q, rest, holds', fit', same, ansi⟩ := ih (s := s₁) (p := p.split) there fit.split
      have taken : Draft.pasted c = true := decide_eq_true (.inl newline)
      rw [if_pos newline, broken, List.filter_cons_of_pos taken]
      refine ⟨s', q, rest, holds', fit', ?_, ansi.trans (ansi_breakLine broken)⟩
      rw [same, Page.place_split, newline]
      rfl
    rw [if_neg newline]
    by_cases printable : 0x20 ≤ c.toNat ∧ c.toNat < 0x7F
    · have one := utf8Size_of_lt printable.2
      obtain ⟨s₁, inserted, there⟩ := At.insertChar holds one
      obtain ⟨s', q, rest, holds', fit', same, ansi⟩ := ih (s := s₁) (p := p.insert c) there
        (fit.insert newline one)
      have taken : Draft.pasted c = true := decide_eq_true (.inr printable)
      rw [if_pos printable, inserted, List.filter_cons_of_pos taken]
      refine ⟨s', q, rest, holds', fit', ?_, ansi.trans (ansi_insertChar inserted)⟩
      rw [same, Page.place_insert]
      rfl
    · have passed : ¬ Draft.pasted c = true := by
        intro taken
        exact (of_decide_eq_true taken).elim newline printable
      rw [if_neg printable, List.filter_cons_of_neg passed]
      exact ih holds fit

/-- To the column of the cursor in another line, or to its end. -/
theorem clampCursor {above below : List Text} {line : Text} {row col : Nat}
    (lines : s.lines = above ++ line :: below) (there : row = above.length)
    (ascii : ∀ c ∈ line, c.utf8Size = 1) :
    ∃ s', (s.moveTo row col).clampCursor = some s' ∧
      Holds s' ⟨above, line.take (min col line.length), line.drop (min col line.length), below⟩ ∧
      s'.ansi = s.ansi := by
  have found : (s.moveTo row col).lines[(s.moveTo row col).cursorLine]? = some line := by
    show s.lines[row]? = some line
    rw [lines, there, getElem?_middle]
  refine ⟨_, clampCursor_eq found, ⟨?_, there, ?_⟩, rfl⟩
  · show s.lines = above ++ (line.take _ ++ line.drop _) :: below
    rw [List.take_append_drop]
    exact lines
  · show min col (byteLen line) = byteLen (line.take (min col line.length))
    rw [byteLen_of_ascii ascii, byteLen_of_ascii fun c member => ascii c (List.mem_of_mem_take member),
      List.length_take]
    omega

theorem moveUp (holds : Holds s p) (fit : Fit p) :
    ∃ s', s.moveUp = some s' ∧ Holds s' p.up ∧ s'.ansi = s.ansi := by
  obtain ⟨above, front, back, below⟩ := p
  have row : s.cursorLine = above.length := holds.cursorLine
  have col : s.cursorCol = front.length := holds.cursorCol.trans (byteLen_of_ascii fit.front)
  rw [TextEditor.moveUp, Page.up]
  rcases List.eq_nil_or_concat' above with rfl | ⟨above, line, rfl⟩
  · rw [row, List.length_nil, if_neg (Nat.lt_irrefl 0)]
    exact ⟨s, rfl, holds, rfl⟩
  · have size : s.cursorLine = above.length + 1 := row.trans List.length_append
    have lines : s.lines = above ++ line :: (front ++ back) :: below := by
      rw [holds.lines, List.append_assoc]
      rfl
    have ascii : ∀ c ∈ line, c.utf8Size = 1 := by
      refine fit.ascii line ?_
      exact List.mem_append_left _ (List.mem_append_right _ List.mem_cons_self)
    rw [if_pos (by rw [size]; exact Nat.succ_pos _), col, size, Nat.add_sub_cancel]
    simp only [List.getLast?_concat, List.dropLast_concat]
    exact clampCursor lines rfl ascii

theorem moveDown (holds : Holds s p) (fit : Fit p) :
    ∃ s', s.moveDown = some s' ∧ Holds s' p.down ∧ s'.ansi = s.ansi := by
  obtain ⟨above, front, back, below⟩ := p
  have row : s.cursorLine = above.length := holds.cursorLine
  have col : s.cursorCol = front.length := holds.cursorCol.trans (byteLen_of_ascii fit.front)
  have length : s.lines.length = s.cursorLine + 1 + below.length := At.length holds
  rw [TextEditor.moveDown, Page.down, length]
  cases below with
  | nil =>
    rw [List.length_nil, Nat.add_zero, if_neg (Nat.lt_irrefl _)]
    exact ⟨s, rfl, holds, rfl⟩
  | cons line below =>
    have lines : s.lines = (above ++ [front ++ back]) ++ line :: below := by
      rw [holds.lines, List.append_assoc]
      rfl
    have ascii : ∀ c ∈ line, c.utf8Size = 1 := by
      refine fit.ascii line ?_
      exact List.mem_append_right _ (List.mem_cons_of_mem _ List.mem_cons_self)
    rw [if_pos (below_inside line below _), col]
    refine clampCursor lines ?_ ascii
    rw [row, List.length_append]
    rfl

theorem moveLeft (holds : Holds s p) (fit : Fit p) :
    ∃ s', s.moveLeft = some s' ∧ Holds s' p.left ∧ s'.ansi = s.ansi := by
  obtain ⟨above, front, back, below⟩ := p
  rw [TextEditor.moveLeft, Page.left]
  rcases List.eq_nil_or_concat' front with rfl | ⟨front, c, rfl⟩
  · have col : s.cursorCol = 0 := holds.cursorCol
    rw [col, if_neg (Nat.lt_irrefl 0)]
    rcases List.eq_nil_or_concat' above with rfl | ⟨above, line, rfl⟩
    · have row : s.cursorLine = 0 := holds.cursorLine
      rw [row, if_neg (Nat.lt_irrefl 0)]
      exact ⟨s, rfl, holds, rfl⟩
    · have row : s.cursorLine = above.length + 1 := holds.cursorLine.trans List.length_append
      have lines : s.lines = above ++ line :: back :: below := by
        rw [holds.lines, List.append_assoc]
        rfl
      rw [row, if_pos (Nat.succ_pos _), Nat.add_sub_cancel]
      simp only [List.getLast?_nil, List.getLast?_concat, List.dropLast_concat]
      refine ⟨s.moveTo above.length (byteLen line), ?_, ⟨?_, rfl, rfl⟩, rfl⟩
      · rw [lines, getElem?_middle]
        rfl
      · show s.lines = above ++ (line ++ []) :: back :: below
        rw [List.append_nil]
        exact lines
  · have one : c.utf8Size = 1 := fit.front c (List.mem_append_right _ List.mem_cons_self)
    have col : s.cursorCol = byteLen front + 1 := by
      rw [holds.cursorCol, byteLen_append, byteLen_cons, one]
      rfl
    rw [col, if_pos (Nat.succ_pos _), Nat.add_sub_cancel]
    simp only [List.getLast?_concat, List.dropLast_concat]
    refine ⟨s.moveTo s.cursorLine (byteLen front), rfl, ⟨?_, holds.cursorLine, rfl⟩, rfl⟩
    show s.lines = above ++ (front ++ c :: back) :: below
    rw [holds.lines, List.append_assoc]
    rfl

theorem moveRight (holds : Holds s p) (fit : Fit p) :
    ∃ s', s.moveRight = some s' ∧ Holds s' p.right ∧ s'.ansi = s.ansi := by
  obtain ⟨above, front, back, below⟩ := p
  have col : s.cursorCol = byteLen front := holds.cursorCol
  have there : s.lines[s.cursorLine]? = some (front ++ back) := At.there holds
  have length : s.lines.length = s.cursorLine + 1 + below.length := At.length holds
  rw [TextEditor.moveRight, Page.right, there, Option.map_some, byteLen_append, col, length]
  cases back with
  | nil =>
    rw [byteLen_nil, Nat.add_zero, if_neg (Nat.lt_irrefl _)]
    cases below with
    | nil =>
      rw [List.length_nil, Nat.add_zero, if_neg (Nat.lt_irrefl _)]
      exact ⟨s, rfl, holds, rfl⟩
    | cons line below =>
      rw [if_pos (below_inside line below _)]
      refine ⟨s.moveTo (s.cursorLine + 1) 0, rfl, ⟨?_, ?_, rfl⟩, rfl⟩
      · show s.lines = (above ++ [front]) ++ line :: below
        rw [holds.lines, List.append_assoc, List.append_nil]
        rfl
      · show s.cursorLine + 1 = (above ++ [front]).length
        rw [holds.cursorLine, List.length_append]
        rfl
  | cons c back =>
    have one : c.utf8Size = 1 := fit.back c List.mem_cons_self
    rw [if_pos (by rw [byteLen_cons, one]; omega)]
    refine ⟨s.moveTo s.cursorLine (byteLen front + 1), rfl, ⟨?_, holds.cursorLine, ?_⟩, rfl⟩
    · show s.lines = above ++ (front ++ [c] ++ back) :: below
      rw [holds.lines, List.append_assoc]
      rfl
    · show byteLen front + 1 = byteLen (front ++ [c])
      rw [byteLen_append, byteLen_cons, one]
      rfl

theorem home (holds : Holds s p) : Holds (s.moveTo s.cursorLine 0) p.home :=
  ⟨holds.lines, holds.cursorLine, rfl⟩

theorem moveEnd (holds : Holds s p) :
    ∃ s', s.moveEnd = some s' ∧ Holds s' p.toEnd ∧ s'.ansi = s.ansi := by
  rw [TextEditor.moveEnd, At.there holds]
  refine ⟨_, rfl, ⟨?_, holds.cursorLine, rfl⟩, rfl⟩
  show s.lines = p.above ++ (p.front ++ p.back ++ []) :: p.below
  rw [List.append_nil]
  exact holds.lines

theorem deleteKey (holds : Holds s p) : ∃ s', s.deleteKey = some s' ∧ Holds s' p.delete := by
  obtain ⟨above, front, back, below⟩ := p
  have there : s.lines[s.cursorLine]? = some (front ++ back) := At.there holds
  have col : s.cursorCol = byteLen front := holds.cursorCol
  have row : s.cursorLine = above.length := holds.cursorLine
  simp only [TextEditor.deleteKey, there, Option.bind_eq_bind, Option.bind_some]
  cases back with
  | nil =>
    have length : s.lines.length = s.cursorLine + 1 + below.length := At.length holds
    rw [List.append_nil, ← col, if_neg (Nat.lt_irrefl _), length]
    cases below with
    | nil =>
      rw [List.length_nil, Nat.add_zero, if_neg (Nat.lt_irrefl _)]
      exact ⟨s, rfl, holds⟩
    | cons line below =>
      have lines : s.lines = (above ++ [front ++ []]) ++ line :: below := by
        rw [holds.lines, List.append_assoc]
        rfl
      have next : s.cursorLine + 1 = (above ++ [front ++ []]).length := by
        rw [row, List.length_append]
        rfl
      have isNext : s.lines[s.cursorLine + 1]? = some line := by
        rw [lines, next, getElem?_middle]
      have erased : At (s.eraseLine (s.cursorLine + 1)) above front [] below := by
        refine ⟨?_, row, col⟩
        show s.lines.eraseIdx (s.cursorLine + 1) = _
        rw [lines, next, eraseIdx_middle, List.append_assoc]
        rfl
      have joined := (erased.setLine front line).setDirty
      rw [← erased.cursorCol] at joined
      rw [if_pos (below_inside line below _), isNext, Option.bind_some]
      exact ⟨_, rfl, joined⟩
  | cons c back =>
    have wide := c.utf8Size_pos
    have removed := (At.setLine holds front back).setDirty
    rw [← col] at removed
    rw [byteLen_append, byteLen_cons, ← col, if_pos (by omega), col, removeAt_append,
      Option.bind_some]
    exact ⟨_, rfl, removed⟩

theorem backspace (holds : Holds s p) (fit : Fit p) :
    ∃ s', s.backspace = some s' ∧ Holds s' p.backspace := by
  obtain ⟨above, front, back, below⟩ := p
  have there : s.lines[s.cursorLine]? = some (front ++ back) := At.there holds
  rw [TextEditor.backspace, Page.backspace, there]
  rcases List.eq_nil_or_concat' front with rfl | ⟨front, c, rfl⟩
  · have col : s.cursorCol = 0 := holds.cursorCol
    rw [col, if_neg (Nat.lt_irrefl 0)]
    rcases List.eq_nil_or_concat' above with rfl | ⟨above, line, rfl⟩
    · have row : s.cursorLine = 0 := holds.cursorLine
      rw [row, if_neg (Nat.lt_irrefl 0)]
      exact ⟨s, rfl, holds⟩
    · have row : s.cursorLine = (above ++ [line]).length := holds.cursorLine
      have size : (above ++ [line]).length = above.length + 1 := List.length_append
      have before : s.cursorLine - 1 = above.length := by
        rw [row, size, Nat.add_sub_cancel]
      have erased : (s.eraseLine s.cursorLine).lines = above ++ line :: below := by
        show s.lines.eraseIdx s.cursorLine = _
        rw [holds.lines, row, eraseIdx_middle, List.append_assoc]
        rfl
      have isBefore : (s.eraseLine s.cursorLine).lines[s.cursorLine - 1]? = some line := by
        rw [erased, before, getElem?_middle]
      have start : At ((s.eraseLine s.cursorLine).moveTo (s.cursorLine - 1) (byteLen line)) above
          line [] below := by
        refine ⟨?_, before, rfl⟩
        show (s.eraseLine s.cursorLine).lines = above ++ (line ++ []) :: below
        rw [List.append_nil]
        exact erased
      rw [if_pos (by rw [row, size]; exact Nat.succ_pos _)]
      simp only [Option.bind_eq_bind, Option.bind_some, isBefore, List.getLast?_nil,
        List.getLast?_concat, List.dropLast_concat]
      exact ⟨_, rfl, (start.setLine line back).setDirty⟩
  · have one : c.utf8Size = 1 := fit.front c (List.mem_append_right _ List.mem_cons_self)
    have col : s.cursorCol = byteLen front + 1 := by
      rw [holds.cursorCol, byteLen_append, byteLen_cons, one]
      rfl
    rw [col, if_pos (Nat.succ_pos _), Nat.add_sub_cancel]
    simp only [Option.bind_eq_bind, Option.bind_some, List.getLast?_concat, List.dropLast_concat]
    rw [List.append_assoc, List.singleton_append, removeAt_append, Option.bind_some]
    exact ⟨_, rfl, (At.setLine holds front back).setDirty⟩

end Holds

/-! ## Runs -/

section Keys

variable {s : TextEditor} {p : Page Char} {clipboard : Option Text}

/-- The editor after a key, against the draft after it. -/
def Done (s : TextEditor) (after : Option (TextEditor × Option Text)) (d : Draft) : Prop :=
  ∃ s' q clipboard', after = some (s', clipboard') ∧ Holds s' q ∧ Fit q ∧ s'.ansi = s.ansi ∧
    d = ⟨q.place '\n', s.ansi, clipboard'⟩

theorem isLine (fit : Fit p) : Draft.line (p.place '\n') = p.front ++ p.back := by
  rw [Draft.line, Page.column_place fit.clean]
  exact congrArg (p.front ++ ·) (Page.firstLine_begun p.below fit.clean.back)

theorem done_paste (holds : Holds s p) (fit : Fit p) :
    Done s ((s.paste clipboard).map (·, clipboard))
      ⟨Draft.insertAll (p.place '\n') ((clipboard.getD []).filter Draft.pasted), s.ansi, clipboard⟩ := by
  cases clipboard with
  | none => exact ⟨s, p, none, rfl, holds, fit, rfl, rfl⟩
  | some text =>
    obtain ⟨s', q, pasted, holds', fit', same, ansi⟩ := holds.pasteChars fit text
    refine ⟨s'.setDirty, q, some text, ?_, At.setDirty holds', fit', ansi, ?_⟩
    · rw [paste, pasted, Option.bind_some, (At.setDirty holds').clampCursor]
      rfl
    · rw [same]
      rfl

/-- **One character key.** -/
theorem done_type (holds : Holds s p) (fit : Fit p) (c : UInt8) :
    Done s (s.handleKey clipboard (.char c)) (Draft.type ⟨p.place '\n', s.ansi, clipboard⟩ c) := by
  rw [TextEditor.handleKey, Draft.type]
  by_cases copy : c = 0x03
  · rw [if_pos copy, if_pos copy, At.there holds]
    refine ⟨s, p, _, rfl, holds, fit, rfl, ?_⟩
    rw [isLine fit]
  rw [if_neg copy, if_neg copy]
  by_cases pasted : c = 0x16
  · rw [if_pos pasted, if_pos pasted]
    exact done_paste holds fit
  rw [if_neg pasted, if_neg pasted]
  by_cases newline : c = 0x0A ∨ c = 0x0D
  · rw [if_pos newline, if_pos newline]
    obtain ⟨s', broken, there⟩ := At.breakLine holds
    rw [broken]
    have there' : Holds s'.setDirty p.split := there.setDirty
    have ansi : s'.ansi = s.ansi := ansi_breakLine broken
    refine ⟨s'.setDirty, p.split, clipboard, rfl, there', fit.split, ansi, ?_⟩
    rw [Page.place_split]
  rw [if_neg newline, if_neg newline]
  by_cases back : c = 0x08 ∨ c = 0x7F
  · rw [if_pos back, if_pos back]
    obtain ⟨s', removed, there⟩ := holds.backspace fit
    rw [removed]
    refine ⟨s', p.backspace, clipboard, rfl, there, fit.backspace, ansi_backspace removed, ?_⟩
    rw [Page.place_backspace]
  rw [if_neg back, if_neg back]
  by_cases tab : c = 9
  · rw [if_pos tab, if_pos tab]
    obtain ⟨s', q, inserted, there, fit', same, ansi⟩ :=
      holds.insertAll fit (by decide : ' ' ≠ '\n') (by decide) tabWidth
    rw [inserted]
    refine ⟨s'.setDirty, q, clipboard, rfl, At.setDirty there, fit', ansi, ?_⟩
    rw [same]
  rw [if_neg tab, if_neg tab]
  by_cases printable : 32 ≤ c ∧ c ≤ 126
  · rw [if_pos printable, if_pos printable]
    have least : 32 ≤ c.toNat := UInt8.le_iff_toNat_le.mp printable.1
    have most : c.toNat ≤ 126 := UInt8.le_iff_toNat_le.mp printable.2
    have same : (Char.ofUInt8 c).toNat = c.toNat := UInt8.toNat_toUInt32 c
    have one : (Char.ofUInt8 c).utf8Size = 1 := utf8Size_of_lt (by omega)
    have other : Char.ofUInt8 c ≠ '\n' := by
      intro newline
      rw [newline] at same
      have ten : '\n'.toNat = 10 := rfl
      omega
    obtain ⟨s', inserted, there⟩ := At.insertChar holds one
    rw [inserted]
    have there' : Holds s'.setDirty (p.insert (Char.ofUInt8 c)) := there.setDirty
    have ansi : s'.ansi = s.ansi := ansi_insertChar inserted
    refine ⟨s'.setDirty, p.insert (Char.ofUInt8 c), clipboard, rfl, there', fit.insert other one,
      ansi, ?_⟩
    rw [Page.place_insert]
  · rw [if_neg printable, if_neg printable]
    exact ⟨s, p, clipboard, rfl, holds, fit, rfl, rfl⟩

/-- **One key.** -/
theorem done_act (holds : Holds s p) (fit : Fit p) (key : Key) :
    Done s (s.handleKey clipboard key) (Draft.act ⟨p.place '\n', s.ansi, clipboard⟩ key) := by
  cases key with
  | none => exact ⟨s, p, clipboard, rfl, holds, fit, rfl, rfl⟩
  | up =>
    obtain ⟨s', moved, there, ansi⟩ := holds.moveUp fit
    rw [TextEditor.handleKey, moved]
    exact ⟨s', p.up, clipboard, rfl, there, fit.moved fit.clean.up Page.lines_up, ansi,
      by rw [Page.place_up fit.clean]; rfl⟩
  | down =>
    obtain ⟨s', moved, there, ansi⟩ := holds.moveDown fit
    rw [TextEditor.handleKey, moved]
    exact ⟨s', p.down, clipboard, rfl, there, fit.moved fit.clean.down Page.lines_down, ansi,
      by rw [Page.place_down fit.clean]; rfl⟩
  | left =>
    obtain ⟨s', moved, there, ansi⟩ := holds.moveLeft fit
    rw [TextEditor.handleKey, moved]
    exact ⟨s', p.left, clipboard, rfl, there, fit.moved fit.clean.left Page.lines_left, ansi,
      by rw [Page.place_left]; rfl⟩
  | right =>
    obtain ⟨s', moved, there, ansi⟩ := holds.moveRight fit
    rw [TextEditor.handleKey, moved]
    exact ⟨s', p.right, clipboard, rfl, there, fit.moved fit.clean.right Page.lines_right, ansi,
      by rw [Page.place_right]; rfl⟩
  | home =>
    exact ⟨_, p.home, clipboard, rfl, holds.home, fit.moved fit.clean.home Page.lines_home, rfl,
      by rw [Page.place_home fit.clean]; rfl⟩
  | «end» =>
    obtain ⟨s', moved, there, ansi⟩ := holds.moveEnd
    rw [TextEditor.handleKey, moved]
    exact ⟨s', p.toEnd, clipboard, rfl, there, fit.moved fit.clean.toEnd Page.lines_toEnd, ansi,
      by rw [Page.place_toEnd fit.clean]; rfl⟩
  | delete =>
    obtain ⟨s', removed, there⟩ := holds.deleteKey
    rw [TextEditor.handleKey, removed]
    exact ⟨s', p.delete, clipboard, rfl, there, fit.delete, ansi_deleteKey removed,
      by rw [Page.place_delete]; rfl⟩
  | char c => exact done_type holds fit c

end Keys

/-- The desk does what the draft means. -/
def Types (desk : Desk) (d : Draft) : Prop :=
  ∃ p, Holds desk.editor p ∧ Fit p ∧ d = ⟨p.place '\n', desk.editor.ansi, desk.clipboard⟩

theorem Types.press {desk : Desk} {d : Draft} (types : Types desk d) (key : UInt8) :
    ∃ desk', desk.handle (.key key) = some desk' ∧ Types desk' (d.press key) := by
  obtain ⟨p, holds, fit, rfl⟩ := types
  have fed : Holds { desk.editor with ansi := (feed desk.editor.ansi key).1 } p :=
    ⟨holds.lines, holds.cursorLine, holds.cursorCol⟩
  obtain ⟨s', q, clipboard', handled, holds', fit', ansi, same⟩ :=
    @done_act _ _ desk.clipboard fed fit (feed desk.editor.ansi key).2
  refine ⟨⟨s', clipboard'⟩, ?_, q, holds', fit', ?_⟩
  · rw [Desk.handle, TextEditor.sendKey, handled, Option.bind_some, At.clampCursor holds']
    rfl
  · rw [ansi]
    exact same

/-- The keys, one after another. -/
def typed (desk : Desk) (keys : List UInt8) : Option Desk :=
  keys.foldl (fun d key => step d (.key key)) (some desk)

theorem Types.typed {desk : Desk} {d : Draft} (types : Types desk d) (keys : List UInt8) :
    ∃ desk', typed desk keys = some desk' ∧ Types desk' (keys.foldl Draft.press d) := by
  induction keys generalizing desk d with
  | nil => exact ⟨desk, rfl, types⟩
  | cons key keys ih =>
    obtain ⟨desk₁, handled, types₁⟩ := types.press key
    obtain ⟨desk', rest, types'⟩ := ih types₁
    refine ⟨desk', ?_, types'⟩
    rw [Editor.typed, List.foldl_cons, step, Option.bind_some, handled]
    exact rest

/-! ## Opening a file -/

/-- A line of a text that was split has no separator, and only characters of the text. -/
theorem mem_splitOn {sep : Char} {text line : Text} (member : line ∈ text.splitOn sep) :
    sep ∉ line ∧ ∀ c ∈ line, c ∈ text := by
  induction text generalizing line with
  | nil =>
    rw [List.splitOn_nil, List.mem_singleton] at member
    rw [member]
    exact ⟨List.not_mem_nil, fun c none => none⟩
  | cons c text ih =>
    obtain ⟨first, others, split⟩ := List.exists_cons_of_ne_nil (List.splitOn_ne_nil sep text)
    rw [List.splitOn, List.splitOnP_cons_eq_if_modifyHead] at member
    rw [List.splitOn] at split ih
    by_cases same : (c == sep) = true
    · rw [if_pos same] at member
      rcases List.mem_cons.mp member with rfl | later
      · exact ⟨List.not_mem_nil, fun c none => by cases none⟩
      · obtain ⟨free, within⟩ := ih later
        exact ⟨free, fun d inLine => List.mem_cons_of_mem c (within d inLine)⟩
    · rw [if_neg same, split, List.modifyHead_cons] at member
      rcases List.mem_cons.mp member with rfl | later
      · obtain ⟨free, within⟩ := ih (split ▸ List.mem_cons_self)
        constructor
        · intro inLine
          rcases List.mem_cons.mp inLine with rfl | inFirst
          · exact same (beq_self_eq_true _)
          · exact free inFirst
        · intro d inLine
          rcases List.mem_cons.mp inLine with rfl | inFirst
          · exact List.mem_cons_self
          · exact List.mem_cons_of_mem c (within d inFirst)
      · obtain ⟨free, within⟩ := ih (split ▸ List.mem_cons_of_mem first later)
        exact ⟨free, fun d inLine => List.mem_cons_of_mem c (within d inLine)⟩

theorem mem_textLines {text line : Text} (member : line ∈ textLines text) :
    '\n' ∉ line ∧ ∀ c ∈ line, c ∈ text := by
  rw [textLines, List.mem_append] at member
  rcases member with early | last
  · obtain ⟨whole, inSplit, rfl⟩ := List.mem_map.mp early
    obtain ⟨free, within⟩ := mem_splitOn (List.mem_of_mem_dropLast inSplit)
    have part : ∀ c ∈ stripReturn whole, c ∈ whole := by
      intro c inLine
      rw [stripReturn] at inLine
      split at inLine
      · exact List.mem_of_mem_dropLast inLine
      · exact inLine
    exact ⟨fun inLine => free (part _ inLine), fun c inLine => within c (part c inLine)⟩
  · have inSplit : line ∈ text.splitOn '\n' := by
      rw [Option.mem_toList] at last
      exact List.mem_of_getLast? (Option.filter_eq_some_iff.mp last).1
    exact mem_splitOn inSplit

/-- The text of a file, as far as it can be read. -/
def textOf (content : Option Bytes) : Text := ((fromUtf8 (content.getD [])).getD "").toList

theorem types_new (filename : String) {content : Option Bytes}
    (ascii : ∀ c ∈ textOf content, c.utf8Size = 1) (clipboard : Option Text) :
    Types ⟨TextEditor.new filename content, clipboard⟩
      ⟨⟨[], ['\n'].intercalate (TextEditor.new filename content).lines⟩, 0, clipboard⟩ := by
  have lines : ∀ line ∈ (TextEditor.new filename content).lines,
      '\n' ∉ line ∧ ∀ c ∈ line, c.utf8Size = 1 := by
    intro line member
    rw [TextEditor.new] at member
    dsimp only at member
    split at member
    · rw [List.mem_singleton.mp member]
      exact ⟨List.not_mem_nil, fun c none => by cases none⟩
    · obtain ⟨free, within⟩ := mem_textLines member
      exact ⟨free, fun c inLine => ascii c (within c inLine)⟩
  obtain ⟨first, rest, shape⟩ : ∃ first rest,
      (TextEditor.new filename content).lines = first :: rest :=
    List.exists_cons_of_ne_nil (sound_new filename content).nonempty
  have page : (⟨[], [], first, rest⟩ : Page Char).lines =
      (TextEditor.new filename content).lines := shape.symm
  refine ⟨⟨[], [], first, rest⟩, ⟨shape, rfl, rfl⟩, ⟨⟨?_, List.not_mem_nil, ?_, ?_⟩, ?_⟩, ?_⟩
  · intro line none
    cases none
  · exact (lines first (shape ▸ List.mem_cons_self)).1
  · intro line member
    exact (lines line (shape ▸ List.mem_cons_of_mem first member)).1
  · intro line member
    exact (lines line (page ▸ member)).2
  · rw [← page, Page.intercalate_lines]
    rfl

end RustyPenguin.Editor
