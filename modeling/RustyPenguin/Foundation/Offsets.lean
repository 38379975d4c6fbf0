import RustyPenguin.Foundation.Lines
import Mathlib.Data.List.Basic
import Mathlib.Algebra.Order.Group.Nat

/-!
# Byte offsets into text

A text is a list of characters, and an offset into it counts bytes of its UTF-8 form. Only some offsets
are between two characters (`IsBoundary`), and only there can the text be taken apart.

The functions that insert, remove and cut at an offset have no result where the offset is not a
boundary. At the offset of a front of the text they do what they should (`splitAtByte_append`).
-/

set_option autoImplicit false

namespace RustyPenguin.Foundation

/-- The size of a text in bytes. -/
def byteLen : Text → Nat
  | [] => 0
  | c :: text => c.utf8Size + byteLen text

/-- The text before an offset and the text from it on. -/
def splitAtByte : Text → Nat → Option (Text × Text)
  | text, 0 => some ([], text)
  | [], _ + 1 => none
  | c :: text, k + 1 =>
    if c.utf8Size ≤ k + 1 then
      (splitAtByte text (k + 1 - c.utf8Size)).map fun parts => (c :: parts.1, parts.2)
    else none

def IsBoundary (text : Text) (k : Nat) : Prop := (splitAtByte text k).isSome

instance (text : Text) (k : Nat) : Decidable (IsBoundary text k) :=
  inferInstanceAs (Decidable (_ = true))

/-- Inserting a character at an offset. -/
def insertAt (text : Text) (k : Nat) (c : Char) : Option Text :=
  (splitAtByte text k).map fun parts => parts.1 ++ c :: parts.2

/-- Removing the character at an offset. At the end there is none. -/
def removeAt (text : Text) (k : Nat) : Option Text :=
  (splitAtByte text k).bind fun parts =>
    match parts.2 with
    | [] => none
    | _ :: back => some (parts.1 ++ back)

/-- The text from an offset on. -/
def tailFrom (text : Text) (k : Nat) : Option Text := (splitAtByte text k).map Prod.snd

/-- Cutting the text off at an offset. An offset behind the end changes nothing. -/
def truncateAt (text : Text) (k : Nat) : Option Text :=
  if k ≤ byteLen text then (splitAtByte text k).map Prod.fst else some text

/-- The character at an offset. -/
def charAfter (text : Text) (k : Nat) : Option Char :=
  (splitAtByte text k).bind fun parts => parts.2.head?

/-- The character that ends at an offset. -/
def charBefore (text : Text) (k : Nat) : Option Char :=
  (splitAtByte text k).bind fun parts => parts.1.getLast?

section Offsets

variable {text front back : Text} {c : Char} {k : Nat}

@[simp] theorem byteLen_nil : byteLen [] = 0 := rfl

@[simp] theorem byteLen_cons (c : Char) (text : Text) :
    byteLen (c :: text) = c.utf8Size + byteLen text := rfl

@[simp] theorem byteLen_append (front back : Text) :
    byteLen (front ++ back) = byteLen front + byteLen back := by
  induction front with
  | nil => rw [List.nil_append, byteLen_nil, Nat.zero_add]
  | cons c front ih => rw [List.cons_append, byteLen_cons, byteLen_cons, ih, Nat.add_assoc]

@[simp] theorem splitAtByte_zero (text : Text) : splitAtByte text 0 = some ([], text) := by
  cases text <;> rfl

theorem splitAtByte_cons_succ (c : Char) (text : Text) (k : Nat) :
    splitAtByte (c :: text) (k + 1) =
      if c.utf8Size ≤ k + 1 then
        (splitAtByte text (k + 1 - c.utf8Size)).map fun parts => (c :: parts.1, parts.2)
      else none := rfl

theorem splitAtByte_cons (c : Char) (text : Text) (k : Nat) :
    splitAtByte (c :: text) (c.utf8Size + k) =
      (splitAtByte text k).map fun parts => (c :: parts.1, parts.2) := by
  obtain ⟨n, size⟩ := Nat.exists_eq_succ_of_ne_zero (Nat.ne_of_gt c.utf8Size_pos)
  have shape : c.utf8Size + k = (n + k) + 1 := by omega
  rw [shape, splitAtByte_cons_succ, if_pos (by omega), show n + k + 1 - c.utf8Size = k by omega]

theorem splitAtByte_cons_of_lt (some : 0 < k) (small : k < c.utf8Size) :
    splitAtByte (c :: text) k = none := by
  obtain ⟨k, rfl⟩ := Nat.exists_eq_succ_of_ne_zero (Nat.ne_of_gt some)
  rw [splitAtByte_cons_succ, if_neg (Nat.not_le.mpr small)]

/-- Behind a front the text is taken apart in the rest. -/
theorem splitAtByte_append_add (front back : Text) (k : Nat) :
    splitAtByte (front ++ back) (byteLen front + k) =
      (splitAtByte back k).map fun parts => (front ++ parts.1, parts.2) := by
  induction front with
  | nil =>
    rw [List.nil_append, byteLen_nil, Nat.zero_add]
    exact Option.map_id'.symm
  | cons c front ih =>
    rw [List.cons_append, byteLen_cons, Nat.add_assoc, splitAtByte_cons, ih, Option.map_map]
    rfl

/-- **The offset of a front is a boundary**, and the text is taken apart behind the front. -/
theorem splitAtByte_append (front back : Text) :
    splitAtByte (front ++ back) (byteLen front) = some (front, back) := by
  have parts := splitAtByte_append_add front back 0
  rwa [Nat.add_zero, splitAtByte_zero, Option.map_some, List.append_nil] at parts

theorem splitAtByte_eq_some (parts : splitAtByte text k = some (front, back)) :
    text = front ++ back ∧ byteLen front = k := by
  induction text, k using splitAtByte.induct generalizing front with
  | case1 text =>
    rw [splitAtByte_zero] at parts
    cases parts
    exact ⟨rfl, rfl⟩
  | case2 k => cases parts
  | case3 c text k fits ih =>
    rw [splitAtByte_cons_succ, if_pos fits] at parts
    obtain ⟨⟨front', back'⟩, inner, same⟩ := Option.map_eq_some_iff.mp parts
    cases same
    obtain ⟨rfl, size⟩ := ih inner
    refine ⟨rfl, ?_⟩
    rw [byteLen_cons, size]
    omega
  | case4 c text k big =>
    rw [splitAtByte_cons_succ, if_neg big] at parts
    cases parts

theorem isBoundary_iff : IsBoundary text k ↔ ∃ front back, text = front ++ back ∧ byteLen front = k := by
  constructor
  · intro boundary
    obtain ⟨⟨front, back⟩, parts⟩ := Option.isSome_iff_exists.mp boundary
    exact ⟨front, back, splitAtByte_eq_some parts⟩
  · rintro ⟨front, back, rfl, rfl⟩
    rw [IsBoundary, splitAtByte_append]
    rfl

theorem IsBoundary.le (boundary : IsBoundary text k) : k ≤ byteLen text := by
  obtain ⟨front, back, rfl, rfl⟩ := isBoundary_iff.1 boundary
  rw [byteLen_append]
  exact Nat.le_add_right _ _

theorem isBoundary_append (front back : Text) : IsBoundary (front ++ back) (byteLen front) :=
  isBoundary_iff.2 ⟨front, back, rfl, rfl⟩

theorem isBoundary_zero (text : Text) : IsBoundary text 0 := isBoundary_append [] text

theorem isBoundary_byteLen (text : Text) : IsBoundary text (byteLen text) := by
  have boundary := isBoundary_append text []
  rwa [List.append_nil] at boundary

theorem isBoundary_append_add (front back : Text) (k : Nat) :
    IsBoundary (front ++ back) (byteLen front + k) ↔ IsBoundary back k := by
  rw [IsBoundary, IsBoundary, splitAtByte_append_add, Option.isSome_map]

/-- One byte behind a boundary is one exactly when a character of one byte is there. -/
theorem isBoundary_succ : IsBoundary (front ++ c :: back) (byteLen front + 1) ↔ c.utf8Size = 1 := by
  rw [isBoundary_append_add]
  constructor
  · intro boundary
    by_contra more
    have big : 1 < c.utf8Size := Nat.lt_of_le_of_ne c.utf8Size_pos (Ne.symm more)
    rw [IsBoundary, splitAtByte_cons_of_lt Nat.one_pos big] at boundary
    cases boundary
  · intro one
    have boundary := isBoundary_append [c] back
    rwa [byteLen_cons, one] at boundary

/-- One byte before a boundary is one exactly when a character of one byte ends there. -/
theorem splitAtByte_pred (big : c.utf8Size ≠ 1) :
    splitAtByte (front ++ c :: back) (byteLen front + c.utf8Size - 1) = none := by
  have some := c.utf8Size_pos
  rw [Nat.add_sub_assoc some, splitAtByte_append_add,
    splitAtByte_cons_of_lt (by omega) (Nat.sub_lt some Nat.one_pos), Option.map_none]

theorem insertAt_append (front back : Text) (c : Char) :
    insertAt (front ++ back) (byteLen front) c = some (front ++ c :: back) := by
  rw [insertAt, splitAtByte_append, Option.map_some]

theorem removeAt_append (front back : Text) (c : Char) :
    removeAt (front ++ c :: back) (byteLen front) = some (front ++ back) := by
  rw [removeAt, splitAtByte_append, Option.bind_some]

theorem tailFrom_append (front back : Text) :
    tailFrom (front ++ back) (byteLen front) = some back := by
  rw [tailFrom, splitAtByte_append, Option.map_some]

theorem truncateAt_append (front back : Text) :
    truncateAt (front ++ back) (byteLen front) = some front := by
  have inside : byteLen front ≤ byteLen (front ++ back) := (isBoundary_append front back).le
  rw [truncateAt, if_pos inside, splitAtByte_append, Option.map_some]

theorem charAfter_append (front back : Text) :
    charAfter (front ++ back) (byteLen front) = back.head? := by
  rw [charAfter, splitAtByte_append, Option.bind_some]

theorem charBefore_append (front back : Text) :
    charBefore (front ++ back) (byteLen front) = front.getLast? := by
  rw [charBefore, splitAtByte_append, Option.bind_some]

end Offsets

end RustyPenguin.Foundation
