import Mathlib.Data.List.DropRight
import RustyPenguin.Foundation.Lines

/-!
# Texts up to white space

Two texts with the same words differ in their white space only. A text that is built character by
character keeps the words of the text it is read from when every run of white space puts at least
one white space character into it: `Alike` is the invariant of such loops, since it says what holds
whatever is appended next.
-/

set_option autoImplicit false

namespace RustyPenguin.Foundation

/-- `char::is_ascii_whitespace`. -/
def isAsciiWhitespace (c : Char) : Bool :=
  c == ' ' || c == '\t' || c == '\n' || c == '\x0c' || c == '\r'

theorem isWhitespace_of_ascii {c : Char} (ascii : isAsciiWhitespace c) : isWhitespace c := by
  simp only [isAsciiWhitespace, Bool.or_eq_true, beq_iff_eq] at ascii
  rcases ascii with (((rfl | rfl) | rfl) | rfl) | rfl <;> rfl

/-! ## Words -/

variable {t u : Text} {c w w' : Char}

@[simp] theorem splitWhitespace_nil : splitWhitespace [] = [] := rfl

/-- White space ends a word. -/
theorem splitWhitespace_append_cons (space : isWhitespace w) (t u : Text) :
    splitWhitespace (t ++ w :: u) = splitWhitespace t ++ splitWhitespace u := by
  rw [splitWhitespace, List.splitOnP_append_cons t u space, List.filter_append]
  rfl

theorem splitWhitespace_cons (space : isWhitespace w) (t : Text) :
    splitWhitespace (w :: t) = splitWhitespace t :=
  splitWhitespace_append_cons space [] t

theorem splitWhitespace_concat (space : isWhitespace w) (t : Text) :
    splitWhitespace (t ++ [w]) = splitWhitespace t := by
  rw [splitWhitespace_append_cons space t [], splitWhitespace_nil, List.append_nil]

/-- A text without words is white space. -/
theorem isWhitespace_of_splitWhitespace (none : splitWhitespace t = []) :
    ∀ c ∈ t, isWhitespace c := by
  induction t with
  | nil => exact fun c member => absurd member List.not_mem_nil
  | cons c t rest =>
    by_cases space : isWhitespace c
    · rw [splitWhitespace_cons space] at none
      exact List.forall_mem_cons.mpr ⟨space, rest none⟩
    · rw [splitWhitespace, List.splitOnP_cons_eq_if_modifyHead, if_neg space] at none
      obtain ⟨first, others, split⟩ := List.exists_cons_of_ne_nil (List.splitOnP_ne_nil isWhitespace t)
      rw [split] at none
      cases none

theorem splitWhitespace_eq_nil (spaces : ∀ c ∈ t, isWhitespace c) : splitWhitespace t = [] := by
  induction t with
  | nil => rfl
  | cons c t rest =>
    rw [splitWhitespace_cons (spaces c List.mem_cons_self)]
    exact rest fun d member => spaces d (List.mem_cons_of_mem c member)

theorem splitWhitespace_dropWhile (t : Text) :
    splitWhitespace (t.dropWhile isWhitespace) = splitWhitespace t := by
  induction t with
  | nil => rfl
  | cons c t rest =>
    by_cases space : isWhitespace c
    · rw [List.dropWhile_cons_of_pos space, rest, splitWhitespace_cons space]
    · rw [List.dropWhile_cons_of_neg space]

theorem splitWhitespace_rdropWhile (t : Text) :
    splitWhitespace (t.rdropWhile isWhitespace) = splitWhitespace t := by
  induction t using List.reverseRecOn with
  | nil => rfl
  | append_singleton t c rest =>
    by_cases space : isWhitespace c
    · rw [List.rdropWhile_concat_pos _ _ _ space, rest, splitWhitespace_concat space]
    · rw [List.rdropWhile_concat_neg _ _ _ space]

/-- **Trimming keeps the words.** -/
theorem splitWhitespace_trim (t : Text) : splitWhitespace (trim t) = splitWhitespace t :=
  (splitWhitespace_rdropWhile _).trans (splitWhitespace_dropWhile t)

/-- A text without words is trimmed away. -/
theorem trim_eq_nil (none : splitWhitespace t = []) : trim t = [] := by
  have spaces : t.dropWhile isWhitespace = [] :=
    List.dropWhile_eq_nil_iff.mpr (isWhitespace_of_splitWhitespace none)
  rw [trim, spaces]
  rfl

/-! ## Texts that are alike -/

/-- Whatever follows, the words are the same. -/
def Alike (t u : Text) : Prop := ∀ rest, splitWhitespace (t ++ rest) = splitWhitespace (u ++ rest)

/-- The text ends between words. -/
def Between (t : Text) : Prop := t = [] ∨ ∃ front w, t = front ++ [w] ∧ isWhitespace w

theorem Alike.refl (t : Text) : Alike t t := fun _ => rfl

theorem Alike.words (alike : Alike t u) : splitWhitespace t = splitWhitespace u := by
  have same := alike []
  rwa [List.append_nil, List.append_nil] at same

theorem Alike.concat (alike : Alike t u) (c : Char) : Alike (t ++ [c]) (u ++ [c]) := by
  intro rest
  rw [List.append_assoc, List.append_assoc]
  exact alike ([c] ++ rest)

/-- One white space character is as good as another. -/
theorem Alike.spaces (alike : Alike t u) (space : isWhitespace w) (space' : isWhitespace w') :
    Alike (t ++ [w]) (u ++ [w']) := by
  intro rest
  rw [List.append_assoc, List.append_assoc, List.singleton_append, List.singleton_append,
    splitWhitespace_append_cons space, splitWhitespace_append_cons space', alike.words]

theorem Between.append (between : Between t) (rest : Text) :
    splitWhitespace (t ++ rest) = splitWhitespace t ++ splitWhitespace rest := by
  rcases between with rfl | ⟨front, w, rfl, space⟩
  · rfl
  · rw [List.append_assoc, List.singleton_append, splitWhitespace_append_cons space,
      splitWhitespace_concat space]

/-- Between words white space may be left out. -/
theorem Alike.skip (alike : Alike t u) (between : Between t) (space : isWhitespace w) :
    Alike t (u ++ [w]) := by
  intro rest
  rw [List.append_assoc, List.singleton_append, splitWhitespace_append_cons space,
    between.append, alike.words]

theorem Between.concat (t : Text) (space : isWhitespace w) : Between (t ++ [w]) :=
  Or.inr ⟨t, w, rfl, space⟩

end RustyPenguin.Foundation
