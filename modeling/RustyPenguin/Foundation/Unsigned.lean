import Mathlib.Data.Nat.Bitwise
import Mathlib.Tactic.NormNum
import RustyPenguin.Foundation.Checked

/-!
# Unsigned words that must not overflow

Addition and multiplication of unsigned words of 32 and 64 bits that fault where the exact result
leaves the word, and a narrowing that faults where it would lose a bit. Where such an operation
returns, it returns what the word operation of the same name does, and its number is the exact one.
Beside them, the numbers that masks, shifts and the `or` of disjoint parts compute.
-/

set_option autoImplicit false

namespace RustyPenguin.Unsigned

/-! ## Checked operations -/

def add32 (a b : UInt32) : Checked UInt32 :=
  if a.toNat + b.toNat < 2 ^ 32 then pure (a + b) else Checked.fault

def mul32 (a b : UInt32) : Checked UInt32 :=
  if a.toNat * b.toNat < 2 ^ 32 then pure (a * b) else Checked.fault

def add64 (a b : UInt64) : Checked UInt64 :=
  if a.toNat + b.toNat < 2 ^ 64 then pure (a + b) else Checked.fault

def mul64 (a b : UInt64) : Checked UInt64 :=
  if a.toNat * b.toNat < 2 ^ 64 then pure (a * b) else Checked.fault

/-- A double word that must be a word. -/
def narrow (a : UInt64) : Checked UInt32 :=
  if a.toNat < 2 ^ 32 then pure a.toUInt32 else Checked.fault

section Exact

variable {x y : Nat}

theorem add32_spec {a b : UInt32} (left : a.toNat = x) (right : b.toNat = y)
    (fits : x + y < 2 ^ 32) : add32 a b = .ok (a + b) ∧ (a + b).toNat = x + y := by
  subst left right
  refine ⟨by rw [add32, if_pos fits]; rfl, ?_⟩
  rw [UInt32.toNat_add, Nat.mod_eq_of_lt fits]

theorem mul32_spec {a b : UInt32} (left : a.toNat = x) (right : b.toNat = y)
    (fits : x * y < 2 ^ 32) : mul32 a b = .ok (a * b) ∧ (a * b).toNat = x * y := by
  subst left right
  refine ⟨by rw [mul32, if_pos fits]; rfl, ?_⟩
  rw [UInt32.toNat_mul, Nat.mod_eq_of_lt fits]

theorem add64_spec {a b : UInt64} (left : a.toNat = x) (right : b.toNat = y)
    (fits : x + y < 2 ^ 64) : add64 a b = .ok (a + b) ∧ (a + b).toNat = x + y := by
  subst left right
  refine ⟨by rw [add64, if_pos fits]; rfl, ?_⟩
  rw [UInt64.toNat_add, Nat.mod_eq_of_lt fits]

theorem mul64_spec {a b : UInt64} (left : a.toNat = x) (right : b.toNat = y)
    (fits : x * y < 2 ^ 64) : mul64 a b = .ok (a * b) ∧ (a * b).toNat = x * y := by
  subst left right
  refine ⟨by rw [mul64, if_pos fits]; rfl, ?_⟩
  rw [UInt64.toNat_mul, Nat.mod_eq_of_lt fits]

theorem narrow_spec {a : UInt64} (number : a.toNat = x) (fits : x < 2 ^ 32) :
    narrow a = .ok a.toUInt32 ∧ a.toUInt32.toNat = x := by
  subst number
  refine ⟨by rw [narrow, if_pos fits]; rfl, ?_⟩
  rw [UInt64.toNat_toUInt32, Nat.mod_eq_of_lt fits]

end Exact

/-! ## Masks, shifts and disjoint parts -/

/-- Masking the low bits reduces modulo their power. -/
theorem toNat_and_mask (a mask : UInt32) {k : Nat} (bits : mask.toNat = 2 ^ k - 1) :
    (a &&& mask).toNat = a.toNat % 2 ^ k := by
  rw [UInt32.toNat_and, bits, Nat.and_two_pow_sub_one_eq_mod]

theorem toNat_shr (a s : UInt32) (small : s.toNat < 32) :
    (a >>> s).toNat = a.toNat / 2 ^ s.toNat := by
  rw [UInt32.toNat_shiftRight, Nat.mod_eq_of_lt small, Nat.shiftRight_eq_div_pow]

theorem toNat_shr64 (a s : UInt64) (small : s.toNat < 64) :
    (a >>> s).toNat = a.toNat / 2 ^ s.toNat := by
  rw [UInt64.toNat_shiftRight, Nat.mod_eq_of_lt small, Nat.shiftRight_eq_div_pow]

/-- What is shifted above a low part is added to it, less what leaves the word. -/
theorem toNat_or_shl {w a s : UInt32} {k : Nat} (shift : s.toNat = k) (inside : k < 32)
    (small : w.toNat < 2 ^ k) :
    (w ||| (a <<< s)).toNat = w.toNat + a.toNat % 2 ^ (32 - k) * 2 ^ k := by
  subst shift
  have word : (2 : Nat) ^ 32 = 2 ^ (32 - s.toNat) * 2 ^ s.toNat := by
    rw [← pow_add, Nat.sub_add_cancel (Nat.le_of_lt inside)]
  rw [UInt32.toNat_or, UInt32.toNat_shiftLeft, Nat.mod_eq_of_lt inside, Nat.shiftLeft_eq, word,
    Nat.mul_mod_mul_right, ← Nat.shiftLeft_eq, Nat.or_comm,
    ← Nat.shiftLeft_add_eq_or_of_lt small, Nat.add_comm]

/-- Clearing the low bits of a double word rounds it down. -/
theorem and_not_low {n k : Nat} (small : n < 2 ^ 64) :
    n &&& (2 ^ 64 - 1 - (2 ^ k - 1)) = n / 2 ^ k * 2 ^ k := by
  have low : 2 ^ 64 - 1 - (2 ^ k - 1) = 2 ^ 64 - ((2 ^ k - 1) + 1) := by omega
  rw [low]
  apply Nat.eq_of_testBit_eq
  intro i
  by_cases high : 2 ^ k - 1 < 2 ^ 64
  · rw [Nat.testBit_and, Nat.testBit_two_pow_sub_succ high, Nat.testBit_two_pow_sub_one,
      Nat.testBit_mul_two_pow, Nat.testBit_div_two_pow]
    by_cases inLow : i < k
    · simp [inLow, Nat.not_le.mpr inLow]
    · have top : 64 ≤ i → n.testBit i = false := fun out =>
        Nat.testBit_lt_two_pow (Nat.lt_of_lt_of_le small (Nat.pow_le_pow_right (by decide) out))
      by_cases out : 64 ≤ i
      · simp [inLow, top out, Nat.sub_add_cancel (Nat.not_lt.mp inLow)]
      · simp [inLow, Nat.not_le.mp out, Nat.not_lt.mp inLow]
  · have all : 2 ^ 64 ≤ 2 ^ k := by omega
    have none : n / 2 ^ k = 0 := Nat.div_eq_of_lt (Nat.lt_of_lt_of_le small all)
    have zero : 2 ^ 64 - (2 ^ k - 1 + 1) = 0 := by omega
    rw [zero, none, Nat.and_zero, Nat.zero_mul]

end RustyPenguin.Unsigned
