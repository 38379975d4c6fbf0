import RustyPenguin.Editor.TextEditor
import RustyPenguin.Foundation.Trace
import Mathlib.Data.List.GetD

/-!
# The cursor stays in the text

A cursor that is sound is between two parts of a line, with lines above and below (`sound_iff_at`), and
on these the keys do what an editor does. The exceptions are the keys that move by one byte where the
character has more, and those that take the column over into another line.

From every file, a run keeps the cursor sound and does not panic exactly when each of its events is
clear of these (`always_sound_iff`).
-/

set_option autoImplicit false

namespace RustyPenguin.Editor

open Foundation Files TextEditor

/-! ## The cursor between two parts of a line -/

/-- The line of the cursor. -/
def TextEditor.line (s : TextEditor) : Text := s.lines.getD s.cursorLine []

/-- There is a line, the cursor is in one, and its column is between two characters of it. -/
structure Sound (s : TextEditor) : Prop where
  nonempty : s.lines ≠ []
  inside : s.cursorLine < s.lines.length
  boundary : IsBoundary s.line s.cursorCol
  short : s.cursorCol ≤ byteLen s.line

/-- The text with the cursor in it. -/
structure At (s : TextEditor) (above : List Text) (front back : Text) (below : List Text) : Prop where
  lines : s.lines = above ++ (front ++ back) :: below
  cursorLine : s.cursorLine = above.length
  cursorCol : s.cursorCol = byteLen front

section Middle

variable {α : Type} (above below : List α) (a b : α)

theorem getElem?_middle : (above ++ a :: below)[above.length]? = some a := by
  rw [List.getElem?_append_right (Nat.le_refl _), Nat.sub_self, List.getElem?_cons_zero]

theorem set_middle : (above ++ a :: below).set above.length b = above ++ b :: below := by
  rw [List.set_append_right _ _ (Nat.le_refl _), Nat.sub_self, List.set_cons_zero]

theorem insertIdx_middle :
    (above ++ a :: below).insertIdx (above.length + 1) b = above ++ a :: b :: below := by
  induction above with
  | nil => rfl
  | cons x above ih => exact congrArg (x :: ·) ih

theorem eraseIdx_middle : (above ++ a :: below).eraseIdx above.length = above ++ below := by
  rw [List.eraseIdx_append_of_length_le (Nat.le_refl _), Nat.sub_self, List.eraseIdx_cons_zero]

end Middle

section Cursor

variable {s : TextEditor} {above below : List Text} {front back text : Text} {c : Char}
  {clipboard : Option Text}

theorem At.there (at_ : At s above front back below) :
    s.lines[s.cursorLine]? = some (front ++ back) := by
  rw [at_.lines, at_.cursorLine, getElem?_middle]

theorem At.isLine (at_ : At s above front back below) : s.line = front ++ back := by
  rw [TextEditor.line, List.getD_eq_getElem?_getD, at_.there, Option.getD_some]

theorem At.length (at_ : At s above front back below) :
    s.lines.length = s.cursorLine + 1 + below.length := by
  rw [at_.lines, List.length_append, List.length_cons, at_.cursorLine]
  omega

/-- **A sound cursor is in the text.** -/
theorem sound_iff_at : Sound s ↔ ∃ above front back below, At s above front back below := by
  constructor
  · intro sound
    obtain ⟨front, back, isLine, isCol⟩ := isBoundary_iff.mp sound.boundary
    refine ⟨s.lines.take s.cursorLine, front, back, s.lines.drop (s.cursorLine + 1), ?_, ?_, isCol.symm⟩
    · rw [← isLine, TextEditor.line, List.getD_eq_getElem _ _ sound.inside,
        ← List.drop_eq_getElem_cons sound.inside, List.take_append_drop]
    · rw [List.length_take, Nat.min_eq_left (Nat.le_of_lt sound.inside)]
  · rintro ⟨above, front, back, below, at_⟩
    refine ⟨?_, ?_, ?_, ?_⟩
    · rw [at_.lines]
      exact List.append_ne_nil_of_right_ne_nil _ (List.cons_ne_nil _ _)
    · rw [at_.length]
      omega
    · rw [at_.isLine, at_.cursorCol]
      exact isBoundary_append front back
    · rw [at_.isLine, at_.cursorCol]
      exact (isBoundary_append front back).le

theorem At.sound (at_ : At s above front back below) : Sound s :=
  sound_iff_at.2 ⟨above, front, back, below, at_⟩

/-- In a line, the column decides whether the cursor is sound. -/
theorem sound_iff_boundary (there : s.lines[s.cursorLine]? = some text) :
    Sound s ↔ IsBoundary text s.cursorCol := by
  obtain ⟨inside, isLine⟩ := List.getElem?_eq_some_iff.mp there
  have same : s.line = text := by
    rw [TextEditor.line, List.getD_eq_getElem _ _ inside, isLine]
  constructor
  · intro sound
    rw [← same]
    exact sound.boundary
  · intro boundary
    refine ⟨List.ne_nil_of_length_pos (Nat.zero_lt_of_lt inside), inside, ?_, ?_⟩
    · rwa [same]
    · rw [same]
      exact boundary.le

/-! ## Clamping -/

theorem clampCursor_eq (there : s.lines[s.cursorLine]? = some text) :
    s.clampCursor = some { s with cursorCol := min s.cursorCol (byteLen text) } := by
  have inside : ¬s.lines.length ≤ s.cursorLine :=
    Nat.not_le.mpr (List.getElem?_eq_some_iff.mp there).1
  rw [clampCursor, if_neg inside]
  rw [there, Option.map_some]

/-- A cursor that is not behind its line stays. -/
theorem clampCursor_of_le (there : s.lines[s.cursorLine]? = some text)
    (fits : s.cursorCol ≤ byteLen text) : s.clampCursor = some s := by
  rw [clampCursor_eq there, Nat.min_eq_left fits]

/-- After clamping there is a result, and its cursor is sound. -/
def Fine (after : Option TextEditor) : Prop := ∃ s, after.bind clampCursor = some s ∧ Sound s

theorem fine_iff_sound (there : s.lines[s.cursorLine]? = some text)
    (fits : s.cursorCol ≤ byteLen text) : Fine (some s) ↔ Sound s := by
  rw [Fine, Option.bind_some, clampCursor_of_le there fits]
  constructor
  · rintro ⟨s', same, sound⟩
    cases same
    exact sound
  · exact fun sound => ⟨s, rfl, sound⟩

theorem At.fine (at_ : At s above front back below) : Fine (some s) := by
  refine (fine_iff_sound at_.there ?_).mpr at_.sound
  rw [at_.cursorCol]
  exact (isBoundary_append front back).le

/-- The column of the cursor, where it is not behind the line, is between two characters of it. -/
def Fits (line : Text) (col : Nat) : Prop := IsBoundary line (min col (byteLen line))

instance (line : Text) (col : Nat) : Decidable (Fits line col) :=
  inferInstanceAs (Decidable (IsBoundary _ _))

theorem fine_clampCursor (there : s.lines[s.cursorLine]? = some text) :
    Fine s.clampCursor ↔ Fits text s.cursorCol := by
  rw [clampCursor_eq there]
  have clamped : ({ s with cursorCol := min s.cursorCol (byteLen text) } : TextEditor).lines[
      s.cursorLine]? = some text := there
  rw [fine_iff_sound clamped (Nat.min_le_right _ _), sound_iff_boundary clamped]
  rfl

/-! ## Changing the text -/

theorem At.setLine (at_ : At s above front back below) (front' back' : Text) :
    At ((s.setLine (front' ++ back')).moveTo s.cursorLine (byteLen front')) above front' back'
      below := by
  refine ⟨?_, at_.cursorLine, rfl⟩
  rw [moveTo, TextEditor.setLine, at_.lines, at_.cursorLine, set_middle]

theorem At.setDirty (at_ : At s above front back below) : At s.setDirty above front back below :=
  ⟨at_.lines, at_.cursorLine, at_.cursorCol⟩

theorem At.breakLine (at_ : At s above front back below) :
    ∃ s', s.breakLine = some s' ∧ At s' (above ++ [front]) [] back below := by
  have inside : s.cursorLine + 1 ≤ (s.setLine front).lines.length := by
    rw [TextEditor.setLine, List.length_set, at_.length]
    exact Nat.le_add_right _ _
  have inserted : (s.setLine front).lines.insertIdx (s.cursorLine + 1) back =
      above ++ [front] ++ back :: below := by
    rw [TextEditor.setLine, at_.lines, at_.cursorLine, set_middle, insertIdx_middle,
      List.append_assoc]
    rfl
  have col := at_.cursorCol
  simp only [TextEditor.breakLine, at_.there, Option.bind_eq_bind, Option.bind_some]
  rw [col, tailFrom_append, Option.bind_some, truncateAt_append, Option.bind_some, if_pos inside]
  refine ⟨_, rfl, inserted, ?_, rfl⟩
  rw [List.length_append, ← at_.cursorLine]
  rfl

theorem At.insertChar (at_ : At s above front back below) (one : c.utf8Size = 1) :
    ∃ s', s.insertChar c = some s' ∧ At s' above (front ++ [c]) back below := by
  have after := at_.setLine (front ++ [c]) back
  rw [byteLen_append, byteLen_cons, one, List.append_assoc, ← at_.cursorCol] at after
  simp only [TextEditor.insertChar, at_.there, Option.bind_eq_bind, Option.bind_some]
  refine ⟨_, ?_, after⟩
  rw [at_.cursorCol, insertAt_append]
  rfl

/-- Every character that is inserted has one byte. -/
theorem utf8Size_of_lt (ascii : c.toNat < 0x7F) : c.utf8Size = 1 := by
  rw [Char.utf8Size_eq_one_iff]
  exact UInt32.le_iff_toNat_le.mpr (Nat.le_of_lt ascii)

theorem At.insertTimes (at_ : At s above front back below) (one : c.utf8Size = 1) (n : Nat) :
    ∃ s' front', s.insertTimes c n = some s' ∧ At s' above front' back below := by
  induction n generalizing s front with
  | zero => exact ⟨s, front, rfl, at_⟩
  | succ n ih =>
    obtain ⟨s', inserted, there⟩ := at_.insertChar one
    rw [TextEditor.insertTimes, inserted]
    exact ih there

theorem At.pasteChars (at_ : At s above front back below) (text : Text) :
    ∃ s' above' front', s.pasteChars text = some s' ∧ At s' above' front' back below := by
  induction text generalizing s above front with
  | nil => exact ⟨s, above, front, rfl, at_⟩
  | cons c text ih =>
    rw [TextEditor.pasteChars]
    by_cases newline : c = '\n'
    · obtain ⟨s', broken, there⟩ := at_.breakLine
      rw [if_pos newline, broken]
      exact ih there
    rw [if_neg newline]
    by_cases printable : 0x20 ≤ c.toNat ∧ c.toNat < 0x7F
    · obtain ⟨s', inserted, there⟩ := at_.insertChar (utf8Size_of_lt printable.2)
      rw [if_pos printable, inserted]
      exact ih there
    · rw [if_neg printable]
      exact ih at_

theorem At.clampCursor (at_ : At s above front back below) : s.clampCursor = some s := by
  refine clampCursor_of_le at_.there ?_
  rw [at_.cursorCol]
  exact (isBoundary_append front back).le

theorem At.fine_paste (at_ : At s above front back below) (clipboard : Option Text) :
    Fine (s.paste clipboard) := by
  rcases clipboard with _ | text
  · exact at_.fine
  · obtain ⟨s', above', front', pasted, there⟩ := at_.pasteChars text
    rw [paste, pasted, Option.bind_some, there.setDirty.clampCursor]
    exact there.setDirty.fine

theorem At.fine_delete (at_ : At s above front back below) : Fine s.deleteKey := by
  simp only [deleteKey, at_.there, Option.bind_eq_bind, Option.bind_some]
  rcases back with _ | ⟨c, back⟩
  · rw [List.append_nil, ← at_.cursorCol, if_neg (Nat.lt_irrefl _)]
    rcases below with _ | ⟨next, below⟩
    · rw [at_.length, List.length_nil, if_neg (Nat.lt_irrefl _)]
      exact at_.fine
    · have isNext : s.lines[s.cursorLine + 1]? = some next := by
        have middle := getElem?_middle (above ++ [front ++ []]) below next
        rwa [List.append_assoc, List.length_append, ← at_.cursorLine, List.singleton_append,
          ← at_.lines] at middle
      have erased : At (s.eraseLine (s.cursorLine + 1)) above front [] below := by
        refine ⟨?_, at_.cursorLine, at_.cursorCol⟩
        have middle := eraseIdx_middle (above ++ [front ++ []]) below next
        rwa [List.append_assoc, List.length_append, List.append_assoc, List.singleton_append,
          List.singleton_append, ← at_.lines, ← at_.cursorLine] at middle
      have joined := (erased.setLine front next).setDirty
      rw [← erased.cursorCol] at joined
      rw [at_.length, if_pos (by rw [List.length_cons]; omega), isNext, Option.bind_some]
      exact joined.fine
  · have wide := c.utf8Size_pos
    have removed := (at_.setLine front back).setDirty
    rw [← at_.cursorCol] at removed
    rw [byteLen_append, byteLen_cons, ← at_.cursorCol, if_pos (by omega), at_.cursorCol,
      removeAt_append, Option.bind_some]
    exact removed.fine

/-- The character of one byte before the cursor. -/
def OneByte (c : Option Char) : Prop := ∀ c' ∈ c, c'.utf8Size = 1

instance (c : Option Char) : Decidable (OneByte c) := by
  unfold OneByte
  infer_instance

/-- **Backspace** removes a character of one byte, and panics at a longer one. -/
theorem At.fine_backspace (at_ : At s above front back below) :
    Fine s.backspace ↔ OneByte (charBefore s.line s.cursorCol) := by
  rw [at_.isLine, at_.cursorCol, charBefore_append, backspace]
  rcases List.eq_nil_or_concat' front with rfl | ⟨front, c, rfl⟩
  · rw [at_.cursorCol, byteLen_nil, if_neg (Nat.lt_irrefl 0)]
    refine iff_of_true ?_ (fun c mem => by cases mem)
    rcases List.eq_nil_or_concat' above with rfl | ⟨above, before, rfl⟩
    · rw [at_.cursorLine, List.length_nil, if_neg (Nat.lt_irrefl 0)]
      exact at_.fine
    · have isLine : s.cursorLine = above.length + 1 := by
        rw [at_.cursorLine, List.length_append, List.length_singleton]
      have erased : (s.eraseLine s.cursorLine).lines = above ++ before :: below := by
        show s.lines.eraseIdx s.cursorLine = _
        rw [at_.lines, at_.cursorLine, eraseIdx_middle, List.append_assoc]
        rfl
      have there : At ((s.eraseLine s.cursorLine).moveTo (s.cursorLine - 1) (byteLen before)) above
          before [] below := by
        refine ⟨?_, ?_, rfl⟩
        · rw [List.append_nil]
          exact erased
        · show s.cursorLine - 1 = above.length
          rw [isLine, Nat.add_sub_cancel]
      have isBefore : (s.eraseLine s.cursorLine).lines[s.cursorLine - 1]? = some before := by
        rw [erased, isLine, Nat.add_sub_cancel, getElem?_middle]
      rw [if_pos (by omega), at_.there]
      simp only [Option.bind_eq_bind, Option.bind_some]
      rw [isBefore, Option.bind_some]
      exact (there.setLine before back).setDirty.fine
  · have wide := c.utf8Size_pos
    have col : s.cursorCol = byteLen front + c.utf8Size := by
      rw [at_.cursorCol, byteLen_append]
      rfl
    have there := at_.there
    rw [List.append_assoc, List.singleton_append] at there
    rw [if_pos (by omega), there, List.getLast?_concat]
    simp only [Option.bind_eq_bind, Option.bind_some]
    by_cases one : c.utf8Size = 1
    · have before : s.cursorCol - 1 = byteLen front := by omega
      rw [before, removeAt_append, Option.bind_some]
      exact iff_of_true (at_.setLine front back).setDirty.fine (fun c' mem => by cases mem; exact one)
    · rw [col, removeAt, splitAtByte_pred one, Option.bind_none, Option.bind_none]
      refine iff_of_false ?_ (fun all => one (all c rfl))
      rintro ⟨s', none, -⟩
      cases none

/-! ## Moving -/

/-- **To the right**, over a character of one byte. -/
theorem At.fine_moveRight (at_ : At s above front back below) :
    Fine s.moveRight ↔ OneByte (charAfter s.line s.cursorCol) := by
  rw [at_.isLine, at_.cursorCol, charAfter_append, moveRight, at_.there, Option.map_some,
    at_.cursorCol, byteLen_append]
  rcases back with _ | ⟨c, back⟩
  · refine iff_of_true ?_ (fun c mem => by cases mem)
    rw [byteLen_nil, Nat.add_zero, if_neg (Nat.lt_irrefl _)]
    rcases below with _ | ⟨next, below⟩
    · rw [at_.length, List.length_nil, if_neg (Nat.lt_irrefl _)]
      exact at_.fine
    · have moved : At (s.moveTo (s.cursorLine + 1) 0) (above ++ [front ++ []]) [] next below := by
        refine ⟨?_, ?_, rfl⟩
        · rw [List.append_assoc]
          exact at_.lines
        · rw [List.length_append, ← at_.cursorLine]
          rfl
      rw [at_.length, if_pos (by rw [List.length_cons]; omega)]
      exact moved.fine
  · have wide := c.utf8Size_pos
    have there : (s.moveTo s.cursorLine (byteLen front + 1)).lines[
        (s.moveTo s.cursorLine (byteLen front + 1)).cursorLine]? = some (front ++ c :: back) :=
      at_.there
    have fits : (s.moveTo s.cursorLine (byteLen front + 1)).cursorCol ≤
        byteLen (front ++ c :: back) := by
      rw [byteLen_append, byteLen_cons, moveTo]
      exact Nat.add_le_add_left (Nat.le_trans wide (Nat.le_add_right _ _)) _
    rw [byteLen_cons, if_pos (by omega), fine_iff_sound there fits, sound_iff_boundary there]
    rw [moveTo, isBoundary_succ]
    exact ⟨fun one c' mem => by cases mem; exact one, fun all => all c rfl⟩

/-- **To the left**, over a character of one byte. -/
theorem At.fine_moveLeft (at_ : At s above front back below) :
    Fine s.moveLeft ↔ OneByte (charBefore s.line s.cursorCol) := by
  rw [at_.isLine, at_.cursorCol, charBefore_append, moveLeft]
  rcases List.eq_nil_or_concat' front with rfl | ⟨front, c, rfl⟩
  · rw [at_.cursorCol, byteLen_nil, if_neg (Nat.lt_irrefl 0)]
    refine iff_of_true ?_ (fun c mem => by cases mem)
    rcases List.eq_nil_or_concat' above with rfl | ⟨above, before, rfl⟩
    · rw [at_.cursorLine, List.length_nil, if_neg (Nat.lt_irrefl 0)]
      exact at_.fine
    · have isLine : s.cursorLine = above.length + 1 := by
        rw [at_.cursorLine, List.length_append, List.length_singleton]
      have lines := at_.lines
      rw [List.append_assoc, List.singleton_append] at lines
      have moved : At (s.moveTo above.length (byteLen before)) above before [] (([] ++ back) :: below) := by
        refine ⟨?_, rfl, rfl⟩
        rw [List.append_nil]
        exact lines
      rw [if_pos (by omega), isLine, Nat.add_sub_cancel, lines, getElem?_middle, Option.map_some]
      exact moved.fine
  · have wide := c.utf8Size_pos
    have col : s.cursorCol = byteLen front + c.utf8Size := by
      rw [at_.cursorCol, byteLen_append]
      rfl
    have isThere : (s.moveTo s.cursorLine (s.cursorCol - 1)).lines[
        (s.moveTo s.cursorLine (s.cursorCol - 1)).cursorLine]? = some (front ++ [c] ++ back) :=
      at_.there
    have fits : (s.moveTo s.cursorLine (s.cursorCol - 1)).cursorCol ≤
        byteLen (front ++ [c] ++ back) := by
      have whole := (isBoundary_append (front ++ [c]) back).le
      rw [← at_.cursorCol] at whole
      exact Nat.le_trans (Nat.sub_le _ _) whole
    rw [if_pos (by omega), List.getLast?_concat, fine_iff_sound isThere fits,
      sound_iff_boundary isThere, List.append_assoc, List.singleton_append]
    show IsBoundary _ (s.cursorCol - 1) ↔ _
    by_cases one : c.utf8Size = 1
    · have before : s.cursorCol - 1 = byteLen front := by omega
      rw [before]
      exact iff_of_true (isBoundary_append front _) (fun c' mem => by cases mem; exact one)
    · rw [col, IsBoundary, splitAtByte_pred one]
      exact iff_of_false Bool.false_ne_true (fun all => one (all c rfl))

/-- Into another line, where the column is to fit. -/
theorem fine_moveTo {cursorLine : Nat} (inside : cursorLine < s.lines.length) :
    Fine (s.moveTo cursorLine s.cursorCol).clampCursor ↔
      Fits (s.lines.getD cursorLine []) s.cursorCol := by
  have there : (s.moveTo cursorLine s.cursorCol).lines[
      (s.moveTo cursorLine s.cursorCol).cursorLine]? = some (s.lines.getD cursorLine []) := by
    rw [List.getD_eq_getElem _ _ inside]
    exact List.getElem?_eq_getElem inside
  exact fine_clampCursor there

theorem At.fine_moveUp (at_ : At s above front back below) :
    Fine s.moveUp ↔ (0 < s.cursorLine → Fits (s.lines.getD (s.cursorLine - 1) []) s.cursorCol) := by
  rw [moveUp]
  split_ifs with first
  · have inside := at_.sound.inside
    rw [fine_moveTo (by omega)]
    exact ⟨fun fits _ => fits, fun fits => fits first⟩
  · exact iff_of_true at_.fine (fun other => absurd other first)

theorem At.fine_moveDown (at_ : At s above front back below) :
    Fine s.moveDown ↔ (s.cursorLine + 1 < s.lines.length →
      Fits (s.lines.getD (s.cursorLine + 1) []) s.cursorCol) := by
  rw [moveDown]
  split_ifs with last
  · rw [fine_moveTo last]
    exact ⟨fun fits _ => fits, fun fits => fits last⟩
  · exact iff_of_true at_.fine (fun other => absurd other last)

theorem At.fine_home (at_ : At s above front back below) : Fine (some (s.moveTo s.cursorLine 0)) := by
  have home : At (s.moveTo s.cursorLine 0) above [] (front ++ back) below :=
    ⟨at_.lines, at_.cursorLine, rfl⟩
  exact home.fine

theorem At.fine_end (at_ : At s above front back below) : Fine s.moveEnd := by
  have last : At (s.moveTo s.cursorLine (byteLen (front ++ back))) above (front ++ back) [] below := by
    refine ⟨?_, at_.cursorLine, rfl⟩
    rw [List.append_nil]
    exact at_.lines
  rw [moveEnd, at_.there]
  exact last.fine

/-! ## The keys -/

/-- What a key needs: a character of one byte where it moves over one, and a line in which the column
fits where it goes to one. -/
def KeyClear (s : TextEditor) : Key → Prop
  | .up => 0 < s.cursorLine → Fits (s.lines.getD (s.cursorLine - 1) []) s.cursorCol
  | .down => s.cursorLine + 1 < s.lines.length →
      Fits (s.lines.getD (s.cursorLine + 1) []) s.cursorCol
  | .right => OneByte (charAfter s.line s.cursorCol)
  | .left => OneByte (charBefore s.line s.cursorCol)
  | .char c => c = 0x08 ∨ c = 0x7F → OneByte (charBefore s.line s.cursorCol)
  | .none | .home | .end | .delete => True

instance (s : TextEditor) : (key : Key) → Decidable (KeyClear s key)
  | .up | .down | .right | .left | .char _ => by unfold KeyClear; infer_instance
  | .none | .home | .end | .delete => isTrue trivial

theorem fine_map {after : Option TextEditor} (clipboard : Option Text) :
    (∃ r, ((after.map (·, clipboard)).bind fun r => r.1.clampCursor.map (·, r.2)) = some r ∧
      Sound r.1) ↔ Fine after := by
  rcases after with _ | s
  · constructor
    · rintro ⟨r, none, -⟩
      cases none
    · rintro ⟨s, none, -⟩
      cases none
  · rw [Fine, Option.map_some, Option.bind_some, Option.bind_some]
    constructor
    · rintro ⟨r, clamped, sound⟩
      obtain ⟨s', same, rfl⟩ := Option.map_eq_some_iff.mp clamped
      exact ⟨s', same, sound⟩
    · rintro ⟨s', same, sound⟩
      exact ⟨(s', clipboard), by rw [same]; rfl, sound⟩

/-- **A key keeps the cursor sound exactly when it is clear.** -/
theorem At.handleKey_iff (at_ : At s above front back below) (clipboard : Option Text) (key : Key) :
    (∃ r, ((s.handleKey clipboard key).bind fun r => r.1.clampCursor.map (·, r.2)) = some r ∧
      Sound r.1) ↔ KeyClear s key := by
  cases key with
  | none => exact iff_of_true ((fine_map clipboard).mpr at_.fine) trivial
  | up => exact (fine_map clipboard).trans at_.fine_moveUp
  | down => exact (fine_map clipboard).trans at_.fine_moveDown
  | left => exact (fine_map clipboard).trans at_.fine_moveLeft
  | right => exact (fine_map clipboard).trans at_.fine_moveRight
  | home => exact iff_of_true ((fine_map clipboard).mpr at_.fine_home) trivial
  | «end» => exact iff_of_true ((fine_map clipboard).mpr at_.fine_end) trivial
  | delete => exact iff_of_true ((fine_map clipboard).mpr at_.fine_delete) trivial
  | char c =>
    rw [handleKey, KeyClear]
    by_cases back : c = 0x08 ∨ c = 0x7F
    · have others : ¬c = 0x03 ∧ ¬c = 0x16 ∧ ¬(c = 0x0A ∨ c = 0x0D) := by
        rcases back with rfl | rfl
        · decide
        · decide
      rw [if_neg others.1, if_neg others.2.1, if_neg others.2.2, if_pos back]
      exact (fine_map clipboard).trans (at_.fine_backspace.trans ⟨fun one _ => one, fun all => all back⟩)
    · refine iff_of_true ?_ (fun here => absurd here back)
      split_ifs with copy pasted newline tab printable
      · rw [at_.there]
        exact (fine_map _).mpr at_.fine
      · exact (fine_map clipboard).mpr (at_.fine_paste clipboard)
      · obtain ⟨s', broken, there⟩ := at_.breakLine
        rw [broken]
        exact (fine_map clipboard).mpr there.setDirty.fine
      · obtain ⟨s', front', inserted, there⟩ := at_.insertTimes (by decide : ' '.utf8Size = 1) tabWidth
        rw [inserted]
        exact (fine_map clipboard).mpr there.setDirty.fine
      · have one : (Char.ofUInt8 c).utf8Size = 1 := by
          have ascii : c.toNat ≤ 126 := UInt8.le_iff_toNat_le.mp printable.2
          have same : (Char.ofUInt8 c).toNat = c.toNat := UInt8.toNat_toUInt32 c
          exact utf8Size_of_lt (by omega)
        obtain ⟨s', inserted, there⟩ := at_.insertChar one
        rw [inserted]
        exact (fine_map clipboard).mpr there.setDirty.fine
      · exact (fine_map clipboard).mpr at_.fine

theorem Sound.sendKey_iff (sound : Sound s) (clipboard : Option Text) (key : UInt8) :
    (∃ r, s.sendKey clipboard key = some r ∧ Sound r.1) ↔ KeyClear s (feed s.ansi key).2 := by
  obtain ⟨above, front, back, below, at_⟩ := sound_iff_at.1 sound
  have fed : At { s with ansi := (feed s.ansi key).1 } above front back below :=
    ⟨at_.lines, at_.cursorLine, at_.cursorCol⟩
  exact fed.handleKey_iff clipboard (feed s.ansi key).2

/-- **A click** keeps the cursor sound exactly when its column fits in the line. -/
theorem Sound.onMouse_iff (sound : Sound s) (x y : BitVec 32) (buttons : UInt8) :
    (∃ s', s.onMouse x y buttons = some s' ∧ Sound s') ↔
      ∀ hit ∈ s.clicked x y buttons, Fits (s.lines.getD hit.1 []) hit.2 := by
  rw [onMouse]
  have known : ∀ hit ∈ s.clicked x y buttons, hit.1 < s.lines.length := by
    intro hit mem
    rw [clicked] at mem
    dsimp only at mem
    split_ifs at mem with up before outside
    · cases mem
    · cases mem
    · cases mem
    · cases mem
      exact Nat.not_le.mp outside
  generalize s.clicked x y buttons = click at known ⊢
  rcases click with _ | ⟨lineIdx, col⟩
  · exact iff_of_true ⟨s, rfl, sound⟩ (fun hit mem => by cases mem)
  · have inside := known (lineIdx, col) rfl
    have there : s.lines[lineIdx]? = some (s.lines.getD lineIdx []) := by
      rw [List.getD_eq_getElem _ _ inside]
      exact List.getElem?_eq_getElem inside
    have moved : (s.moveTo lineIdx (min col (byteLen (s.lines.getD lineIdx [])))).lines[
        (s.moveTo lineIdx (min col (byteLen (s.lines.getD lineIdx [])))).cursorLine]? =
          some (s.lines.getD lineIdx []) := there
    dsimp only
    rw [there, Option.map_some]
    constructor
    · rintro ⟨s', same, sound'⟩ hit mem
      cases same
      cases mem
      exact (sound_iff_boundary moved).mp sound'
    · intro fits
      exact ⟨_, rfl, (sound_iff_boundary moved).mpr (fits _ rfl)⟩

end Cursor

/-! ## Runs -/

/-- There was no panic, and the cursor is sound. -/
def Steady (d : Option Desk) : Prop := ∃ desk, d = some desk ∧ Sound desk.editor

/-- What an event needs in a state. -/
def Event.Clear (s : TextEditor) : Event → Prop
  | .key k => KeyClear s (feed s.ansi k).2
  | .mouse x y buttons => ∀ hit ∈ s.clicked x y buttons, Fits (s.lines.getD hit.1 []) hit.2
  | .render _ | .save | .open _ _ | .newFile _ | .copied _ => True

def Allowed (d : Option Desk) (e : Event) : Prop := ∀ desk ∈ d, e.Clear desk.editor

theorem sound_new (filename : String) (content : Option Bytes) :
    Sound (TextEditor.new filename content) := by
  have full : (TextEditor.new filename content).lines ≠ [] := by
    rw [TextEditor.new]
    dsimp only
    split_ifs with none
    · exact List.cons_ne_nil _ _
    · exact none
  obtain ⟨line, rest, lines⟩ := List.exists_cons_of_ne_nil full
  have start : At (TextEditor.new filename content) [] [] line rest := ⟨lines, rfl, rfl⟩
  exact start.sound

theorem sound_newFile (filename : String) : Sound (TextEditor.newFile filename) := by
  have start : At (TextEditor.newFile filename) [] [] [] [] := ⟨rfl, rfl, rfl⟩
  exact start.sound

/-- **One event.** -/
theorem steady_step (d : Option Desk) (e : Event) (steady : Steady d) :
    Steady (step d e) ↔ Allowed d e := by
  obtain ⟨desk, rfl, sound⟩ := steady
  have alone : Allowed (some desk) e ↔ e.Clear desk.editor :=
    ⟨fun all => all desk rfl, fun clear desk' mem => by cases mem; exact clear⟩
  have still : ∀ desk', desk.handle e = some desk' → Sound desk'.editor → Steady (step (some desk) e) :=
    fun desk' handled sound' => ⟨desk', handled, sound'⟩
  rw [alone]
  cases e with
  | key key =>
    rw [Event.Clear, ← sound.sendKey_iff desk.clipboard key]
    constructor
    · rintro ⟨desk', handled, sound'⟩
      obtain ⟨r, sent, rfl⟩ := Option.map_eq_some_iff.mp handled
      exact ⟨r, sent, sound'⟩
    · rintro ⟨r, sent, sound'⟩
      exact still ⟨r.1, r.2⟩ (by rw [Desk.handle, sent]; rfl) sound'
  | mouse x y buttons =>
    rw [Event.Clear, ← sound.onMouse_iff x y buttons]
    constructor
    · rintro ⟨desk', handled, sound'⟩
      obtain ⟨s', moved, rfl⟩ := Option.map_eq_some_iff.mp handled
      exact ⟨s', moved, sound'⟩
    · rintro ⟨s', moved, sound'⟩
      exact still { desk with editor := s' } (by rw [Desk.handle, moved]; rfl) sound'
  | render h => exact iff_of_true (still _ rfl ⟨sound.nonempty, sound.inside, sound.boundary, sound.short⟩) trivial
  | save => exact iff_of_true (still _ rfl ⟨sound.nonempty, sound.inside, sound.boundary, sound.short⟩) trivial
  | «open» filename content => exact iff_of_true (still _ rfl (sound_new filename content)) trivial
  | newFile filename => exact iff_of_true (still _ rfl (sound_newFile filename)) trivial
  | copied text => exact iff_of_true (still _ rfl sound) trivial

/-- **The editor keeps its cursor in the text and does not panic exactly when every event is clear.** -/
theorem always_sound_iff (filename : String) (content : Option Bytes) (clipboard : Option Text)
    (events : List Event) :
    Trace.Always step (some ⟨TextEditor.new filename content, clipboard⟩) Steady events ↔
      Trace.Each step (some ⟨TextEditor.new filename content, clipboard⟩) Allowed events :=
  Trace.always_iff (I := fun _ => True) trivial (fun _ _ _ => trivial)
    ⟨_, rfl, sound_new filename content⟩ (fun d e _ steady => steady_step d e steady) events

/-- One key to the right in a file with one character of two bytes, and then a letter. -/
theorem not_steady_two_bytes :
    ¬Trace.Always step (some ⟨TextEditor.new "a" (some [0xC3, 0xA9]), none⟩) Steady
      [.key 0x1B, .key 0x5B, .key 0x43] ∧
    (Trace.after step (some ⟨TextEditor.new "a" (some [0xC3, 0xA9]), none⟩)
      [.key 0x1B, .key 0x5B, .key 0x43, .key 0x61]).isNone := by
  refine ⟨?_, by decide⟩
  intro always
  obtain ⟨desk, same, sound⟩ := always _ List.prefix_rfl
  have inside : ∀ desk' ∈ Trace.after step (some ⟨TextEditor.new "a" (some [0xC3, 0xA9]), none⟩)
      [.key 0x1B, .key 0x5B, .key 0x43], ¬IsBoundary desk'.editor.line desk'.editor.cursorCol := by
    decide
  exact inside desk same sound.boundary

end RustyPenguin.Editor
