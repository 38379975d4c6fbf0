import Mathlib.Algebra.Ring.Int.Defs
import Mathlib.Algebra.Ring.Nat
import Mathlib.Data.List.Basic
import Mathlib.Data.List.TakeWhile

/-!
# Texts with a cursor

A text with a cursor is the part before it and the part behind it (`Place`). The keys of an editor
insert and remove at the cursor and move it, along the text or to the same column of the line above
or below.

An editor keeps its text as lines (`Page`). Each key does on the lines what it does on the text
(`Page.place_insert` and the others), as long as no line holds a separator (`Page.Clean`).
-/

set_option autoImplicit false

namespace RustyPenguin.Foundation

variable {α : Type}

/-! ## The text -/

/-- A text and a cursor in it. -/
@[ext] structure Place (α : Type) where
  before : List α
  after : List α

/-- The part of a text up to its first separator. -/
def firstLine [DecidableEq α] (sep : α) : List α → List α
  | [] => []
  | c :: text => if c = sep then [] else c :: firstLine sep text

/-- The part of a text behind its last separator. -/
def lastLine [DecidableEq α] (sep : α) (text : List α) : List α := (firstLine sep text.reverse).reverse

/-- The part of a text up to its last separator, and with it. -/
def aboveLine [DecidableEq α] (sep : α) (text : List α) : List α :=
  text.take (text.length - (lastLine sep text).length)

namespace Place

/-- The text. -/
def text (p : Place α) : List α := p.before ++ p.after

def insert (p : Place α) (c : α) : Place α := ⟨p.before ++ [c], p.after⟩

def backspace (p : Place α) : Place α := ⟨p.before.dropLast, p.after⟩

def delete (p : Place α) : Place α := ⟨p.before, p.after.tail⟩

def left (p : Place α) : Place α :=
  match p.before.getLast? with
  | some c => ⟨p.before.dropLast, c :: p.after⟩
  | none => p

def right (p : Place α) : Place α :=
  match p.after with
  | c :: after => ⟨p.before ++ [c], after⟩
  | [] => p

/-- To the start of the line. -/
def home [DecidableEq α] (sep : α) (p : Place α) : Place α :=
  ⟨aboveLine sep p.before, lastLine sep p.before ++ p.after⟩

/-- To the end of the line. -/
def toEnd [DecidableEq α] (sep : α) (p : Place α) : Place α :=
  ⟨p.before ++ firstLine sep p.after, p.after.drop (firstLine sep p.after).length⟩

/-- To the same column of the line above, or its end. -/
def up [DecidableEq α] (sep : α) (p : Place α) : Place α :=
  if sep ∈ p.before then
    let line := lastLine sep p.before
    let rest := (aboveLine sep p.before).dropLast
    let goal := lastLine sep rest
    let col := min line.length goal.length
    ⟨aboveLine sep rest ++ goal.take col, goal.drop col ++ sep :: (line ++ p.after)⟩
  else p

/-- To the same column of the line below, or its end. -/
def down [DecidableEq α] (sep : α) (p : Place α) : Place α :=
  if sep ∈ p.after then
    let line := firstLine sep p.after
    let rest := p.after.drop (line.length + 1)
    let col := min (lastLine sep p.before).length (firstLine sep rest).length
    ⟨p.before ++ line ++ sep :: rest.take col, rest.drop col⟩
  else p

end Place

section Lines

variable [DecidableEq α] {sep : α} {front back line : List α}

theorem firstLine_of_not_mem (free : sep ∉ line) : firstLine sep line = line := by
  induction line with
  | nil => rfl
  | cons c line ih =>
    rw [firstLine, if_neg (fun same : c = sep => free (same ▸ List.mem_cons_self)),
      ih fun member => free (List.mem_cons_of_mem c member)]

theorem firstLine_append (free : sep ∉ line) (back : List α) :
    firstLine sep (line ++ sep :: back) = line := by
  induction line with
  | nil =>
    rw [List.nil_append, firstLine, if_pos rfl]
  | cons c line ih =>
    rw [List.cons_append, firstLine, if_neg (fun same : c = sep => free (same ▸ List.mem_cons_self)),
      ih fun member => free (List.mem_cons_of_mem c member)]

theorem lastLine_of_not_mem (free : sep ∉ line) : lastLine sep line = line := by
  rw [lastLine, firstLine_of_not_mem (mt List.mem_reverse.mp free), List.reverse_reverse]

theorem lastLine_append (front : List α) (free : sep ∉ line) :
    lastLine sep (front ++ sep :: line) = line := by
  rw [lastLine, List.reverse_append, List.reverse_cons, List.append_assoc, List.singleton_append,
    firstLine_append (mt List.mem_reverse.mp free), List.reverse_reverse]

theorem aboveLine_of_not_mem (free : sep ∉ line) : aboveLine sep line = [] := by
  rw [aboveLine, lastLine_of_not_mem free, Nat.sub_self, List.take_zero]

theorem aboveLine_append (front : List α) (free : sep ∉ line) :
    aboveLine sep (front ++ sep :: line) = front ++ [sep] := by
  have length : (front ++ sep :: line).length - line.length = (front ++ [sep]).length := by
    rw [List.length_append, List.length_append, List.length_cons, List.length_singleton]
    omega
  rw [aboveLine, lastLine_append front free, length,
    show front ++ sep :: line = (front ++ [sep]) ++ line by rw [List.append_assoc]; rfl,
    List.take_left]

end Lines

/-! ## The lines -/

/-- A text as its lines, with the cursor between two parts of one of them. -/
@[ext] structure Page (α : Type) where
  above : List (List α)
  front : List α
  back : List α
  below : List (List α)

namespace Page

def lines (p : Page α) : List (List α) := p.above ++ (p.front ++ p.back) :: p.below

/-- The lines above, each with its separator. -/
def ended (sep : α) (lines : List (List α)) : List α := lines.flatMap (· ++ [sep])

/-- The lines below, each behind a separator. -/
def begun (sep : α) (lines : List (List α)) : List α := lines.flatMap (sep :: ·)

/-- The text and the cursor. -/
def place (sep : α) (p : Page α) : Place α :=
  ⟨ended sep p.above ++ p.front, p.back ++ begun sep p.below⟩

/-- No line holds a separator. -/
structure Clean (sep : α) (p : Page α) : Prop where
  above : ∀ line ∈ p.above, sep ∉ line
  front : sep ∉ p.front
  back : sep ∉ p.back
  below : ∀ line ∈ p.below, sep ∉ line

def insert (p : Page α) (c : α) : Page α := { p with front := p.front ++ [c] }

/-- A new line at the cursor. -/
def split (p : Page α) : Page α := ⟨p.above ++ [p.front], [], p.back, p.below⟩

def backspace (p : Page α) : Page α :=
  match p.front.getLast? with
  | some _ => { p with front := p.front.dropLast }
  | none =>
    match p.above.getLast? with
    | some line => ⟨p.above.dropLast, line, p.back, p.below⟩
    | none => p

def delete (p : Page α) : Page α :=
  match p.back with
  | _ :: back => { p with back := back }
  | [] =>
    match p.below with
    | line :: below => ⟨p.above, p.front, line, below⟩
    | [] => p

def left (p : Page α) : Page α :=
  match p.front.getLast? with
  | some c => { p with front := p.front.dropLast, back := c :: p.back }
  | none =>
    match p.above.getLast? with
    | some line => ⟨p.above.dropLast, line, [], p.back :: p.below⟩
    | none => p

def right (p : Page α) : Page α :=
  match p.back with
  | c :: back => { p with front := p.front ++ [c], back := back }
  | [] =>
    match p.below with
    | line :: below => ⟨p.above ++ [p.front], [], line, below⟩
    | [] => p

def home (p : Page α) : Page α := { p with front := [], back := p.front ++ p.back }

def toEnd (p : Page α) : Page α := { p with front := p.front ++ p.back, back := [] }

def up (p : Page α) : Page α :=
  match p.above.getLast? with
  | some line =>
    let col := min p.front.length line.length
    ⟨p.above.dropLast, line.take col, line.drop col, (p.front ++ p.back) :: p.below⟩
  | none => p

def down (p : Page α) : Page α :=
  match p.below with
  | line :: below =>
    let col := min p.front.length line.length
    ⟨p.above ++ [p.front ++ p.back], line.take col, line.drop col, below⟩
  | [] => p

/-! ## What the lines do is what the text does -/

section Separators

variable (sep : α)

theorem ended_concat (above : List (List α)) (line : List α) :
    ended sep (above ++ [line]) = ended sep above ++ line ++ [sep] := by
  rw [ended, List.flatMap_append, List.flatMap_singleton, List.append_assoc]
  rfl

theorem ended_cons (line : List α) (above : List (List α)) :
    ended sep (line :: above) = line ++ [sep] ++ ended sep above := rfl

theorem begun_cons (line : List α) (below : List (List α)) :
    begun sep (line :: below) = sep :: (line ++ begun sep below) := rfl

variable {sep} {above below : List (List α)} {front back : List α}

/-- Above the cursor's line there is a separator, unless there is nothing. -/
theorem mem_ended_iff (free : sep ∉ front) : sep ∈ ended sep above ++ front ↔ above ≠ [] := by
  rcases List.eq_nil_or_concat' above with rfl | ⟨rest, line, rfl⟩
  · constructor
    · intro member
      exact absurd member free
    · intro some
      exact absurd rfl some
  · constructor
    · intro _
      exact List.append_ne_nil_of_right_ne_nil _ (List.cons_ne_nil _ _)
    · intro _
      rw [ended_concat]
      simp

theorem mem_begun_iff (free : sep ∉ back) : sep ∈ back ++ begun sep below ↔ below ≠ [] := by
  cases below with
  | nil =>
    constructor
    · intro member
      rw [begun, List.flatMap_nil, List.append_nil] at member
      exact absurd member free
    · intro some
      exact absurd rfl some
  | cons line below =>
    constructor
    · intro _
      exact List.cons_ne_nil _ _
    · intro _
      rw [begun_cons]
      simp

theorem lastLine_ended [DecidableEq α] (above : List (List α)) (free : sep ∉ front) :
    lastLine sep (ended sep above ++ front) = front := by
  rcases List.eq_nil_or_concat' above with rfl | ⟨rest, line, rfl⟩
  · exact lastLine_of_not_mem free
  · rw [ended_concat, List.append_assoc, List.singleton_append, lastLine_append _ free]

theorem aboveLine_ended [DecidableEq α] (above : List (List α)) (free : sep ∉ front) :
    aboveLine sep (ended sep above ++ front) = ended sep above := by
  rcases List.eq_nil_or_concat' above with rfl | ⟨rest, line, rfl⟩
  · exact aboveLine_of_not_mem free
  · rw [ended_concat, List.append_assoc, List.singleton_append, aboveLine_append _ free]

theorem firstLine_begun [DecidableEq α] (below : List (List α)) (free : sep ∉ back) :
    firstLine sep (back ++ begun sep below) = back := by
  cases below with
  | nil =>
    rw [begun, List.flatMap_nil, List.append_nil, firstLine_of_not_mem free]
  | cons line below => rw [begun_cons, firstLine_append free]

end Separators

/-- The line of the cursor is the number of separators before it. -/
theorem count_place [DecidableEq α] {sep : α} {p : Page α} (clean : p.Clean sep) :
    (p.place sep).before.count sep = p.above.length := by
  obtain ⟨above, front, back, below⟩ := p
  have freeAbove : ∀ line ∈ above, sep ∉ line := clean.above
  have free : sep ∉ front := clean.front
  show (ended sep above ++ front).count sep = above.length
  rw [List.count_append, List.count_eq_zero_of_not_mem free, Nat.add_zero]
  clear clean
  induction above with
  | nil => rfl
  | cons line above ih =>
    rw [ended_cons, List.count_append, List.count_append,
      List.count_eq_zero_of_not_mem (freeAbove line List.mem_cons_self),
      ih fun other later => freeAbove other (List.mem_cons_of_mem line later),
      List.count_singleton_self, List.length_cons]
    omega

/-- The column of the cursor is the length of the line before it. -/
theorem column_place [DecidableEq α] {sep : α} {p : Page α} (clean : p.Clean sep) :
    lastLine sep (p.place sep).before = p.front := lastLine_ended p.above clean.front

section Place

variable {sep : α} {p : Page α}

theorem place_insert (c : α) : (p.insert c).place sep = (p.place sep).insert c := by
  obtain ⟨above, front, back, below⟩ := p
  exact Place.ext (List.append_assoc _ _ _).symm rfl

theorem place_split : p.split.place sep = (p.place sep).insert sep := by
  obtain ⟨above, front, back, below⟩ := p
  refine Place.ext ?_ rfl
  show ended sep (above ++ [front]) ++ [] = ended sep above ++ front ++ [sep]
  rw [ended_concat, List.append_nil]

theorem place_backspace : p.backspace.place sep = (p.place sep).backspace := by
  obtain ⟨above, front, back, below⟩ := p
  rcases List.eq_nil_or_concat' front with rfl | ⟨front, c, rfl⟩
  · rcases List.eq_nil_or_concat' above with rfl | ⟨above, line, rfl⟩
    · rfl
    · rw [backspace, Place.backspace]
      simp only [List.getLast?_nil, List.getLast?_concat, List.dropLast_concat, place]
      rw [ended_concat, List.append_nil, List.dropLast_concat]
  · rw [backspace, Place.backspace]
    simp only [List.getLast?_concat, List.dropLast_concat, place]
    rw [← List.append_assoc, List.dropLast_concat]

theorem place_delete : p.delete.place sep = (p.place sep).delete := by
  obtain ⟨above, front, back, below⟩ := p
  cases back with
  | cons c back => rfl
  | nil =>
    cases below with
    | nil => rfl
    | cons line below => rfl

theorem place_left : p.left.place sep = (p.place sep).left := by
  obtain ⟨above, front, back, below⟩ := p
  rcases List.eq_nil_or_concat' front with rfl | ⟨front, c, rfl⟩
  · rcases List.eq_nil_or_concat' above with rfl | ⟨above, line, rfl⟩
    · rfl
    · rw [left, Place.left]
      simp only [List.getLast?_nil, List.getLast?_concat, List.dropLast_concat, place]
      rw [ended_concat, List.append_nil, List.getLast?_concat, List.dropLast_concat]
      rfl
  · rw [left, Place.left]
    simp only [List.getLast?_concat, List.dropLast_concat, place]
    rw [← List.append_assoc, List.getLast?_concat, List.dropLast_concat]
    rfl

theorem place_right : p.right.place sep = (p.place sep).right := by
  obtain ⟨above, front, back, below⟩ := p
  cases back with
  | cons c back => exact Place.ext (List.append_assoc _ _ _).symm rfl
  | nil =>
    cases below with
    | nil => rfl
    | cons line below =>
      refine Place.ext ?_ rfl
      show ended sep (above ++ [front]) ++ [] = ended sep above ++ front ++ [sep]
      rw [ended_concat, List.append_nil]

theorem place_home [DecidableEq α] (clean : p.Clean sep) : p.home.place sep = (p.place sep).home sep := by
  obtain ⟨above, front, back, below⟩ := p
  have free : sep ∉ front := clean.front
  rw [home, Place.home]
  simp only [place]
  rw [aboveLine_ended _ free, lastLine_ended _ free, List.append_nil, List.append_assoc]

theorem place_toEnd [DecidableEq α] (clean : p.Clean sep) : p.toEnd.place sep = (p.place sep).toEnd sep := by
  obtain ⟨above, front, back, below⟩ := p
  have free : sep ∉ back := clean.back
  rw [toEnd, Place.toEnd]
  simp only [place]
  rw [firstLine_begun _ free, List.drop_left, List.nil_append, List.append_assoc]

theorem place_up [DecidableEq α] (clean : p.Clean sep) : p.up.place sep = (p.place sep).up sep := by
  obtain ⟨above, front, back, below⟩ := p
  have free : sep ∉ front := clean.front
  rw [Place.up]
  rcases List.eq_nil_or_concat' above with rfl | ⟨above, line, rfl⟩
  · exact (if_neg free).symm
  · have there : sep ∈ (Page.place sep ⟨above ++ [line], front, back, below⟩).before :=
      (mem_ended_iff free).mpr (List.append_ne_nil_of_right_ne_nil _ (List.cons_ne_nil _ _))
    have freeLine : sep ∉ line := clean.above line (List.mem_append_right _ List.mem_cons_self)
    rw [if_pos there, up]
    simp only [List.getLast?_concat, List.dropLast_concat, place]
    rw [lastLine_ended _ free, aboveLine_ended _ free, ended_concat, List.dropLast_concat,
      lastLine_ended _ freeLine, aboveLine_ended _ freeLine, begun_cons]
    simp only [List.append_assoc]

theorem place_down [DecidableEq α] (clean : p.Clean sep) : p.down.place sep = (p.place sep).down sep := by
  obtain ⟨above, front, back, below⟩ := p
  have free : sep ∉ front := clean.front
  have freeBack : sep ∉ back := clean.back
  rw [Place.down]
  cases below with
  | nil =>
    refine (if_neg ?_).symm
    rw [place, begun, List.flatMap_nil, List.append_nil]
    exact freeBack
  | cons line below =>
    have there : sep ∈ (Page.place sep ⟨above, front, back, line :: below⟩).after :=
      (mem_begun_iff freeBack).mpr (List.cons_ne_nil _ _)
    have freeLine : sep ∉ line := clean.below line List.mem_cons_self
    rw [if_pos there, down]
    simp only [place]
    have rest : (back ++ begun sep (line :: below)).drop (back.length + 1) =
        line ++ begun sep below := by
      rw [begun_cons, ← List.drop_drop, List.drop_left]
      rfl
    rw [lastLine_ended _ free, firstLine_begun _ freeBack, rest, firstLine_begun _ freeLine,
      ended_concat]
    have inside := Nat.min_le_right front.length line.length
    rw [List.take_append_of_le_length inside, List.drop_append_of_le_length inside]
    simp only [List.append_assoc, List.singleton_append]

/-! ## No line ever holds a separator -/

theorem Clean.insert (clean : p.Clean sep) {c : α} (other : c ≠ sep) : (p.insert c).Clean sep where
  above := clean.above
  front member := (List.mem_append.mp member).elim clean.front
    fun last => other (List.mem_singleton.mp last).symm
  back := clean.back
  below := clean.below

theorem forall_concat {lines : List (List α)} {line : List α} (all : ∀ l ∈ lines, sep ∉ l)
    (free : sep ∉ line) : ∀ l ∈ lines ++ [line], sep ∉ l := by
  intro l member
  rcases List.mem_append.mp member with before | last
  · exact all l before
  · rw [List.mem_singleton.mp last]
    exact free

theorem not_mem_append {a b : List α} (first : sep ∉ a) (next : sep ∉ b) : sep ∉ a ++ b :=
  fun member => (List.mem_append.mp member).elim first next

theorem Clean.split (clean : p.Clean sep) : p.split.Clean sep where
  above := forall_concat clean.above clean.front
  front := List.not_mem_nil
  back := clean.back
  below := clean.below

theorem Clean.backspace (clean : p.Clean sep) : p.backspace.Clean sep := by
  obtain ⟨above, front, back, below⟩ := p
  obtain ⟨cleanAbove, cleanFront, cleanBack, cleanBelow⟩ := clean
  rcases List.eq_nil_or_concat' front with rfl | ⟨front, c, rfl⟩
  · rcases List.eq_nil_or_concat' above with rfl | ⟨above, line, rfl⟩
    · exact ⟨cleanAbove, cleanFront, cleanBack, cleanBelow⟩
    · rw [Page.backspace]
      simp only [List.getLast?_nil, List.getLast?_concat, List.dropLast_concat]
      exact ⟨fun l member => cleanAbove l (List.mem_append_left _ member),
        cleanAbove line (List.mem_append_right _ List.mem_cons_self), cleanBack, cleanBelow⟩
  · rw [Page.backspace]
    simp only [List.getLast?_concat, List.dropLast_concat]
    exact ⟨cleanAbove, fun member => cleanFront (List.mem_append_left _ member), cleanBack,
      cleanBelow⟩

theorem Clean.delete (clean : p.Clean sep) : p.delete.Clean sep := by
  obtain ⟨above, front, back, below⟩ := p
  obtain ⟨cleanAbove, cleanFront, cleanBack, cleanBelow⟩ := clean
  cases back with
  | cons c back =>
    exact ⟨cleanAbove, cleanFront, fun member => cleanBack (List.mem_cons_of_mem c member),
      cleanBelow⟩
  | nil =>
    cases below with
    | nil => exact ⟨cleanAbove, cleanFront, cleanBack, cleanBelow⟩
    | cons line below =>
      exact ⟨cleanAbove, cleanFront, cleanBelow line List.mem_cons_self,
        fun l member => cleanBelow l (List.mem_cons_of_mem line member)⟩

theorem Clean.left (clean : p.Clean sep) : p.left.Clean sep := by
  obtain ⟨above, front, back, below⟩ := p
  obtain ⟨cleanAbove, cleanFront, cleanBack, cleanBelow⟩ := clean
  rcases List.eq_nil_or_concat' front with rfl | ⟨front, c, rfl⟩
  · rcases List.eq_nil_or_concat' above with rfl | ⟨above, line, rfl⟩
    · exact ⟨cleanAbove, cleanFront, cleanBack, cleanBelow⟩
    · rw [Page.left]
      simp only [List.getLast?_nil, List.getLast?_concat, List.dropLast_concat]
      exact ⟨fun l member => cleanAbove l (List.mem_append_left _ member),
        cleanAbove line (List.mem_append_right _ List.mem_cons_self), List.not_mem_nil,
        List.forall_mem_cons.mpr ⟨cleanBack, cleanBelow⟩⟩
  · rw [Page.left]
    simp only [List.getLast?_concat, List.dropLast_concat]
    refine ⟨cleanAbove, fun member => cleanFront (List.mem_append_left _ member), ?_, cleanBelow⟩
    intro member
    rcases List.mem_cons.mp member with same | later
    · exact cleanFront (List.mem_append_right _ (List.mem_singleton.mpr same))
    · exact cleanBack later

theorem Clean.right (clean : p.Clean sep) : p.right.Clean sep := by
  obtain ⟨above, front, back, below⟩ := p
  obtain ⟨cleanAbove, cleanFront, cleanBack, cleanBelow⟩ := clean
  cases back with
  | cons c back =>
    refine ⟨cleanAbove, not_mem_append cleanFront ?_,
      fun member => cleanBack (List.mem_cons_of_mem c member), cleanBelow⟩
    exact fun member => cleanBack (List.mem_singleton.mp member ▸ List.mem_cons_self)
  | nil =>
    cases below with
    | nil => exact ⟨cleanAbove, cleanFront, cleanBack, cleanBelow⟩
    | cons line below =>
      exact ⟨forall_concat cleanAbove cleanFront, List.not_mem_nil,
        cleanBelow line List.mem_cons_self,
        fun l member => cleanBelow l (List.mem_cons_of_mem line member)⟩

theorem Clean.home (clean : p.Clean sep) : p.home.Clean sep :=
  ⟨clean.above, List.not_mem_nil, not_mem_append clean.front clean.back, clean.below⟩

theorem Clean.toEnd (clean : p.Clean sep) : p.toEnd.Clean sep :=
  ⟨clean.above, not_mem_append clean.front clean.back, List.not_mem_nil, clean.below⟩

theorem Clean.up (clean : p.Clean sep) : p.up.Clean sep := by
  obtain ⟨above, front, back, below⟩ := p
  obtain ⟨cleanAbove, cleanFront, cleanBack, cleanBelow⟩ := clean
  rcases List.eq_nil_or_concat' above with rfl | ⟨above, line, rfl⟩
  · exact ⟨cleanAbove, cleanFront, cleanBack, cleanBelow⟩
  · have free := cleanAbove line (List.mem_append_right _ List.mem_cons_self)
    rw [Page.up]
    simp only [List.getLast?_concat, List.dropLast_concat]
    exact ⟨fun l member => cleanAbove l (List.mem_append_left _ member),
      fun member => free (List.mem_of_mem_take member),
      fun member => free (List.mem_of_mem_drop member),
      List.forall_mem_cons.mpr ⟨not_mem_append cleanFront cleanBack, cleanBelow⟩⟩

theorem Clean.down (clean : p.Clean sep) : p.down.Clean sep := by
  obtain ⟨above, front, back, below⟩ := p
  obtain ⟨cleanAbove, cleanFront, cleanBack, cleanBelow⟩ := clean
  cases below with
  | nil => exact ⟨cleanAbove, cleanFront, cleanBack, cleanBelow⟩
  | cons line below =>
    have free := cleanBelow line List.mem_cons_self
    exact ⟨forall_concat cleanAbove (not_mem_append cleanFront cleanBack),
      fun member => free (List.mem_of_mem_take member),
      fun member => free (List.mem_of_mem_drop member),
      fun l member => cleanBelow l (List.mem_cons_of_mem line member)⟩

end Place

/-! ## Moving changes no line -/

section Moves

variable {p : Page α}

theorem lines_left : p.left.lines = p.lines := by
  obtain ⟨above, front, back, below⟩ := p
  rcases List.eq_nil_or_concat' front with rfl | ⟨front, c, rfl⟩
  · rcases List.eq_nil_or_concat' above with rfl | ⟨above, line, rfl⟩
    · rfl
    · rw [Page.left]
      simp only [List.getLast?_nil, List.getLast?_concat, List.dropLast_concat, lines]
      rw [List.append_nil, List.append_assoc]
      rfl
  · rw [Page.left]
    simp only [List.getLast?_concat, List.dropLast_concat, lines]
    rw [List.append_assoc]
    rfl

theorem lines_right : p.right.lines = p.lines := by
  obtain ⟨above, front, back, below⟩ := p
  cases back with
  | cons c back =>
    rw [Page.right]
    simp only [lines]
    rw [List.append_assoc]
    rfl
  | nil =>
    cases below with
    | nil => rfl
    | cons line below =>
      rw [Page.right]
      simp only [lines]
      rw [List.append_nil, List.append_assoc]
      rfl

theorem lines_home : p.home.lines = p.lines := rfl

theorem lines_toEnd : p.toEnd.lines = p.lines := by
  rw [lines, lines, Page.toEnd, List.append_nil]

theorem lines_up : p.up.lines = p.lines := by
  obtain ⟨above, front, back, below⟩ := p
  rcases List.eq_nil_or_concat' above with rfl | ⟨above, line, rfl⟩
  · rfl
  · rw [Page.up]
    simp only [List.getLast?_concat, List.dropLast_concat, lines]
    rw [List.take_append_drop, List.append_assoc]
    rfl

theorem lines_down : p.down.lines = p.lines := by
  obtain ⟨above, front, back, below⟩ := p
  cases below with
  | nil => rfl
  | cons line below =>
    rw [Page.down]
    simp only [lines]
    rw [List.take_append_drop, List.append_assoc]
    rfl

end Moves

/-- **The lines joined are the text.** -/
theorem intercalate_lines (sep : α) (p : Page α) :
    [sep].intercalate p.lines = (p.place sep).text := by
  obtain ⟨above, front, back, below⟩ := p
  have behind : ∀ (line : List α) (below : List (List α)),
      [sep].intercalate (line :: below) = line ++ begun sep below := by
    intro line below
    induction below generalizing line with
    | nil => rw [List.intercalate_singleton, begun, List.flatMap_nil, List.append_nil]
    | cons next below ih =>
      rw [List.intercalate_cons_cons, ih, begun_cons, List.append_assoc]
      rfl
  show [sep].intercalate (above ++ (front ++ back) :: below) =
    ended sep above ++ front ++ (back ++ begun sep below)
  induction above with
  | nil =>
    rw [List.nil_append, behind, ended, List.flatMap_nil, List.nil_append, List.append_assoc]
  | cons line above ih =>
    obtain ⟨head, rest, shape⟩ : ∃ head rest, above ++ (front ++ back) :: below = head :: rest :=
      List.exists_cons_of_ne_nil (List.append_ne_nil_of_right_ne_nil _ (List.cons_ne_nil _ _))
    rw [List.cons_append, shape, List.intercalate_cons_cons, ← shape, ih, ended_cons]
    simp only [List.append_assoc]

end Page

end RustyPenguin.Foundation
