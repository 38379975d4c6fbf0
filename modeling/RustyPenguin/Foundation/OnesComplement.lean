import Mathlib.Algebra.Ring.Int.Defs
import Mathlib.Algebra.Ring.Nat
import Mathlib.Tactic.Ring

/-!
# Sums with their carries added back

A sum of words up to `m` from which every carry is added back at the low end. What is left is the
remainder of the sum modulo `m`, except that a sum that is not zero leaves `m` and not `0`
(`wrap`). The complement of what is left completes the sum to `m` (`wrap_complement`), which is
why a receiver of words and their checksum adds all of them.
-/

set_option autoImplicit false

namespace RustyPenguin.OnesComplement

variable {m : Nat}

/-- What is left of `n` when every carry out of a word up to `m` is added back. -/
def wrap (m n : Nat) : Nat := if n = 0 then 0 else (n - 1) % m + 1

theorem wrap_zero : wrap m 0 = 0 := if_pos rfl

theorem wrap_of_pos {n : Nat} (positive : 0 < n) : wrap m n = (n - 1) % m + 1 :=
  if_neg (Nat.ne_of_gt positive)

theorem wrap_le (word : 0 < m) (n : Nat) : wrap m n ≤ m := by
  rcases Nat.eq_zero_or_pos n with rfl | positive
  · rw [wrap_zero]
    exact Nat.zero_le m
  · rw [wrap_of_pos positive]
    exact Nat.mod_lt _ word

theorem wrap_of_le {n : Nat} (small : n ≤ m) : wrap m n = n := by
  rcases Nat.eq_zero_or_pos n with rfl | positive
  · exact wrap_zero
  · rw [wrap_of_pos positive, Nat.mod_eq_of_lt (by omega)]
    omega

/-- One carry added back leaves the same. -/
theorem wrap_carry (n : Nat) : wrap m (n % (m + 1) + n / (m + 1)) = wrap m n := by
  have split := Nat.mod_add_div n (m + 1)
  generalize n % (m + 1) = low at *
  generalize n / (m + 1) = high at *
  rcases Nat.eq_zero_or_pos (low + high) with none | some
  · obtain ⟨rfl, rfl⟩ : low = 0 ∧ high = 0 := by omega
    rw [← split]
    rfl
  · have less : n - 1 = m * high + (low + high - 1) := by
      rw [Nat.succ_mul] at split
      omega
    rw [wrap_of_pos some, wrap_of_pos (by rw [Nat.succ_mul] at split; omega), less,
      Nat.mul_add_mod]

theorem wrap_of_dvd {n : Nat} (word : 0 < m) (positive : 0 < n) (divides : m ∣ n) :
    wrap m n = m := by
  obtain ⟨k, rfl⟩ := divides
  cases k with
  | zero => exact absurd positive (Nat.lt_irrefl 0)
  | succ k =>
    have less : m * (k + 1) - 1 = m * k + (m - 1) := by
      rw [Nat.mul_succ]
      omega
    rw [wrap_of_pos positive, less, Nat.mul_add_mod, Nat.mod_eq_of_lt (by omega)]
    omega

/-- **The complement of a sum completes it.** -/
theorem wrap_complement (word : 0 < m) (n : Nat) : wrap m (n + (m - wrap m n)) = m := by
  have bound := wrap_le word n
  rcases Nat.eq_zero_or_pos n with rfl | positive
  · rw [wrap_zero, Nat.sub_zero, Nat.zero_add]
    exact wrap_of_le (Nat.le_refl m)
  · refine wrap_of_dvd word (by omega) ⟨(n - 1) / m + 1, ?_⟩
    rw [wrap_of_pos positive] at bound ⊢
    have split := Nat.mod_add_div (n - 1) m
    rw [Nat.mul_succ]
    omega

/-! ## Words of two bytes -/

/-- The sum of the big-endian words of two bytes of a string. A last byte on its own is the high
byte of a word. -/
def sumWords : List UInt8 → Nat
  | [] => 0
  | [a] => a.toNat * 256
  | a :: b :: rest => a.toNat * 256 + b.toNat + sumWords rest

theorem sumWords_cons_cons (a b : UInt8) (rest : List UInt8) :
    sumWords (a :: b :: rest) = a.toNat * 256 + b.toNat + sumWords rest := rfl

theorem sumWords_append (front back : List UInt8) (even : front.length % 2 = 0) :
    sumWords (front ++ back) = sumWords front + sumWords back := by
  induction front using sumWords.induct with
  | case1 => rw [List.nil_append, sumWords, Nat.zero_add]
  | case2 a => exact absurd even (by simp)
  | case3 a b rest ih =>
    rw [List.cons_append, List.cons_append, sumWords_cons_cons, sumWords_cons_cons,
      ih (by rw [List.length_cons, List.length_cons] at even; omega)]
    omega

theorem sumWords_le (data : List UInt8) : sumWords data ≤ 65535 * ((data.length + 1) / 2) := by
  induction data using sumWords.induct with
  | case1 => exact Nat.le_refl 0
  | case2 a =>
    have byte := a.toNat_lt
    rw [sumWords, List.length_singleton]
    omega
  | case3 a b rest ih =>
    have high := a.toNat_lt
    have low := b.toNat_lt
    rw [sumWords_cons_cons, List.length_cons, List.length_cons]
    omega

end RustyPenguin.OnesComplement
