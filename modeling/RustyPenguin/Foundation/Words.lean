import Mathlib.Algebra.Ring.Int.Defs
import Mathlib.Algebra.Ring.Nat
import Mathlib.Data.List.GetD

/-!
# Little-endian words in lists of bytes

A 32-bit word as its four bytes, and reading one at an offset. What is read depends on the four bytes
from the offset on only.
-/

set_option autoImplicit false

namespace RustyPenguin.Foundation

/-- The four bytes of a word, the lowest first. -/
def le32 (v : Nat) : List UInt8 :=
  [UInt8.ofNat v, UInt8.ofNat (v / 2 ^ 8), UInt8.ofNat (v / 2 ^ 16), UInt8.ofNat (v / 2 ^ 24)]

/-- The word at an offset. -/
def readLe32 (bytes : List UInt8) (off : Nat) : Nat :=
  (bytes.getD off 0).toNat + (bytes.getD (off + 1) 0).toNat * 2 ^ 8 +
    (bytes.getD (off + 2) 0).toNat * 2 ^ 16 + (bytes.getD (off + 3) 0).toNat * 2 ^ 24

section Words

variable {front back bytes : List UInt8} {v off : Nat}

@[simp] theorem length_le32 (v : Nat) : (le32 v).length = 4 := rfl

theorem readLe32_lt (bytes : List UInt8) (off : Nat) : readLe32 bytes off < 2 ^ 32 := by
  have b0 := UInt8.toNat_lt (bytes.getD off 0)
  have b1 := UInt8.toNat_lt (bytes.getD (off + 1) 0)
  have b2 := UInt8.toNat_lt (bytes.getD (off + 2) 0)
  have b3 := UInt8.toNat_lt (bytes.getD (off + 3) 0)
  rw [readLe32]
  omega

theorem readLe32_append (front back : List UInt8) (off : Nat) :
    readLe32 (front ++ back) (front.length + off) = readLe32 back off := by
  have byte : ∀ k, (front ++ back).getD (front.length + k) 0 = back.getD k 0 := by
    intro k
    rw [List.getD_append_right _ _ _ _ (Nat.le_add_right _ _), Nat.add_sub_cancel_left]
  simp only [readLe32, Nat.add_assoc, byte]

/-- A word that was written is read, cut to 32 bits. -/
theorem readLe32_le32 (v : Nat) (back : List UInt8) : readLe32 (le32 v ++ back) 0 = v % 2 ^ 32 := by
  simp only [readLe32, le32, List.cons_append, List.nil_append, List.getD_cons_zero,
    List.getD_cons_succ, Nat.zero_add, UInt8.toNat_ofNat']
  omega

theorem readLe32_at (front back : List UInt8) (v : Nat) :
    readLe32 (front ++ (le32 v ++ back)) front.length = v % 2 ^ 32 := by
  have read := readLe32_append front (le32 v ++ back) 0
  rwa [Nat.add_zero, readLe32_le32] at read

/-- Between two words the high bytes of the first and the low bytes of the second are read. -/
theorem readLe32_between (v w : Nat) (back : List UInt8) {k : Nat} (inside : k < 4) :
    readLe32 (le32 v ++ (le32 w ++ back)) k =
      (v % 2 ^ 32 / 2 ^ (8 * k) + w * 2 ^ (32 - 8 * k)) % 2 ^ 32 := by
  rcases k with _ | _ | _ | _ | k
  case succ.succ.succ.succ => exact absurd inside (by omega)
  all_goals
    simp only [readLe32, le32, List.cons_append, List.nil_append, List.getD_cons_zero,
      List.getD_cons_succ, Nat.zero_add, Nat.reduceAdd, UInt8.toNat_ofNat']
    omega

/-- Words one after the other are read at their offsets. -/
theorem readLe32_words (words : List Nat) (back : List UInt8) :
    ∀ {i : Nat}, i < words.length →
      readLe32 (words.flatMap le32 ++ back) (i * 4) = words.getD i 0 % 2 ^ 32 := by
  induction words with
  | nil =>
    intro i inside
    cases inside
  | cons v words ih =>
    intro i inside
    rw [List.flatMap_cons, List.append_assoc]
    rcases i with _ | i
    · rw [Nat.zero_mul, readLe32_le32, List.getD_cons_zero]
    · have behind := readLe32_append (le32 v) (words.flatMap le32 ++ back) (i * 4)
      rw [length_le32] at behind
      rw [show (i + 1) * 4 = 4 + i * 4 by omega, behind, List.getD_cons_succ]
      exact ih (Nat.lt_of_succ_lt_succ inside)

theorem length_words (words : List Nat) : (words.flatMap le32).length = 4 * words.length := by
  induction words with
  | nil => rfl
  | cons v words ih =>
    rw [List.flatMap_cons, List.length_append, ih, length_le32, List.length_cons]
    omega

/-- What is read is in the part before it is cut off. -/
theorem readLe32_take {n : Nat} (inside : off + 4 ≤ n) :
    readLe32 (bytes.take n) off = readLe32 bytes off := by
  have byte : ∀ k, k < n → (bytes.take n).getD k 0 = bytes.getD k 0 := by
    intro k small
    rw [List.getD_eq_getElem?_getD, List.getElem?_take_of_lt small, List.getD_eq_getElem?_getD]
  rw [readLe32, readLe32, byte off (by omega), byte (off + 1) (by omega), byte (off + 2) (by omega),
    byte (off + 3) (by omega)]

theorem readLe32_prefix (inside : off + 4 ≤ front.length) :
    readLe32 (front ++ back) off = readLe32 front off := by
  rw [← readLe32_take inside, List.take_left]

theorem readLe32_drop (bytes : List UInt8) (n off : Nat) :
    readLe32 (bytes.drop n) off = readLe32 bytes (n + off) := by
  have byte : ∀ k, (bytes.drop n).getD k 0 = bytes.getD (n + k) 0 := by
    intro k
    rw [List.getD_eq_getElem?_getD, List.getElem?_drop, List.getD_eq_getElem?_getD]
  simp only [readLe32, byte, Nat.add_assoc]

end Words

end RustyPenguin.Foundation
