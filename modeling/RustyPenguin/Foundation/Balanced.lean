import Mathlib.Algebra.Order.Ring.Int
import Mathlib.Algebra.Ring.Divisibility.Basic
import Mathlib.Tactic.Ring
import Mathlib.Tactic.Linarith

/-!
# Balanced ternary numerals

A numeral is a list of digits, the units first, each of them minus one, zero or one. With
`n` digits it reaches every integer from `-reach n` to `reach n` and no other, and no
integer has two numerals of one length: the numeral of `n` digits that is congruent to an
integer modulo `3 ^ n` is its balanced residue (`value_eq_bmod`).
-/

set_option autoImplicit false

namespace RustyPenguin.Balanced

/-- A digit of a balanced numeral. -/
def Digit (d : Int) : Prop := -1 ≤ d ∧ d ≤ 1

/-- The number a list of digits stands for, the units first. -/
def value : List Int → Int
  | [] => 0
  | d :: rest => d + 3 * value rest

/-- The largest number that `n` digits stand for. -/
def reach : Nat → Int
  | 0 => 0
  | n + 1 => 3 * reach n + 1

@[simp] theorem value_nil : value [] = 0 := rfl

@[simp] theorem value_cons (d : Int) (rest : List Int) : value (d :: rest) = d + 3 * value rest :=
  rfl

theorem reach_succ (n : Nat) : reach (n + 1) = 3 * reach n + 1 := rfl

theorem two_mul_reach (n : Nat) : 2 * reach n + 1 = 3 ^ n := by
  induction n with
  | zero => rfl
  | succ n ih =>
    rw [reach_succ, pow_succ, ← ih]
    ring

theorem reach_nonneg (n : Nat) : 0 ≤ reach n := by
  induction n with
  | zero => exact le_refl 0
  | succ n ih =>
    rw [reach_succ]
    linarith

theorem reach_mono {m n : Nat} (ordered : m ≤ n) : reach m ≤ reach n := by
  induction ordered with
  | refl => exact le_refl _
  | @step n _ ih =>
    have nonneg : 0 ≤ reach n := reach_nonneg n
    rw [reach_succ]
    linarith

/-- A numeral stays within the reach of its length. -/
theorem value_bounds {ds : List Int} (digits : ∀ d ∈ ds, Digit d) :
    -reach ds.length ≤ value ds ∧ value ds ≤ reach ds.length := by
  induction ds with
  | nil => exact ⟨le_refl 0, le_refl 0⟩
  | cons d rest ih =>
    obtain ⟨low, high⟩ := digits d List.mem_cons_self
    obtain ⟨below, above⟩ := ih fun e member => digits e (List.mem_cons_of_mem d member)
    rw [value_cons, List.length_cons, reach_succ]
    constructor <;> linarith

/-- Within the reach of `n` digits there is one integer of each class modulo `3 ^ n`. -/
theorem eq_of_reach {n : Nat} {a b : Int} (aInside : -reach n ≤ a ∧ a ≤ reach n)
    (bInside : -reach n ≤ b ∧ b ≤ reach n) (congruent : (3 : Int) ^ n ∣ a - b) : a = b := by
  obtain ⟨k, difference⟩ := congruent
  have span : 2 * reach n + 1 = 3 ^ n := two_mul_reach n
  have nonneg : 0 ≤ reach n := reach_nonneg n
  rw [← span] at difference
  have none : k = 0 := by
    by_contra nonzero
    rcases lt_or_gt_of_ne nonzero with negative | positive
    · nlinarith
    · nlinarith
  rw [none, mul_zero] at difference
  linarith

theorem bmod_bounds (v : Int) (n : Nat) :
    -reach n ≤ v.bmod (3 ^ n) ∧ v.bmod (3 ^ n) ≤ reach n := by
  have span : 2 * reach n + 1 = 3 ^ n := two_mul_reach n
  have positive : 0 < 3 ^ n := Nat.pos_of_ne_zero (pow_ne_zero n (by decide))
  have low := Int.le_bmod (x := v) positive
  have high := Int.bmod_lt (x := v) positive
  push_cast at low high
  omega

/-- What is within reach and congruent to an integer is its balanced residue. -/
theorem eq_bmod {n : Nat} {a v : Int} (inside : -reach n ≤ a ∧ a ≤ reach n)
    (congruent : (3 : Int) ^ n ∣ a - v) : a = v.bmod (3 ^ n) := by
  refine eq_of_reach inside (bmod_bounds v n) ?_
  have residue : ((3 ^ n : Nat) : Int) ∣ v - v.bmod (3 ^ n) := Int.dvd_self_sub_bmod
  push_cast at residue
  have sum := dvd_add congruent residue
  rwa [sub_add_sub_cancel] at sum

/-- A numeral congruent to an integer stands for its balanced residue. -/
theorem value_eq_bmod {ds : List Int} {v : Int} (digits : ∀ d ∈ ds, Digit d)
    (congruent : (3 : Int) ^ ds.length ∣ value ds - v) :
    value ds = v.bmod (3 ^ ds.length) :=
  eq_bmod (value_bounds digits) congruent

end RustyPenguin.Balanced
