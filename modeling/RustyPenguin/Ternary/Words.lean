import RustyPenguin.Foundation.Balanced
import RustyPenguin.Foundation.Signed
import Mathlib.Algebra.Order.Ring.Abs
import Mathlib.Data.Vector.Basic

/-!
# Ternary words

A tryte is nine trits, the units first. Words of the machine become trytes by taking
balanced remainders, and trytes are added trit by trit through a full adder and negated
trit by trit. Products and quotients go through machine words of 32 and 64 bits: a product
gives two trytes, the low one its balanced residue modulo `3 ^ 9`.

Every operation agrees with arithmetic on balanced residues. The one conversion that does
not is that of the least and of the largest word, where the step to the next remainder has
no room in the word (`arithmetic_iff`).
-/

set_option autoImplicit false

namespace RustyPenguin.Ternary

open Checked

/-- A balanced ternary digit. -/
inductive Trit where
  | neg
  | zero
  | pos
  deriving DecidableEq, Repr

namespace Trit

def fromI8 (val : Int) : Option Trit :=
  if val = -1 then some neg else if val = 0 then some zero else if val = 1 then some pos else none

def toI8 : Trit → Int
  | neg => -1
  | zero => 0
  | pos => 1

/-- Full adder for trits: the sum and the carry. -/
def fullAdd (self other carryIn : Trit) : Checked (Trit × Trit) :=
  match self.toI8 + other.toI8 + carryIn.toI8 with
  | -3 => pure (zero, neg)
  | -2 => pure (pos, neg)
  | -1 => pure (neg, zero)
  | 0 => pure (zero, zero)
  | 1 => pure (pos, zero)
  | 2 => pure (neg, pos)
  | 3 => pure (zero, pos)
  | _ => fault

def negate : Trit → Trit
  | neg => pos
  | zero => zero
  | pos => neg

theorem digit_toI8 (t : Trit) : Balanced.Digit t.toI8 := by
  cases t <;> exact ⟨by decide, by decide⟩

theorem toI8_negate (t : Trit) : t.negate.toI8 = -t.toI8 := by
  cases t <;> rfl

/-- Each digit is read as a trit. -/
theorem fromI8_of_digit {d : Int} (digit : Balanced.Digit d) :
    ∃ t, fromI8 d = some t ∧ t.toI8 = d := by
  obtain ⟨low, high⟩ := digit
  have three : d = -1 ∨ d = 0 ∨ d = 1 := by omega
  rcases three with rfl | rfl | rfl
  · exact ⟨neg, rfl, rfl⟩
  · exact ⟨zero, rfl, rfl⟩
  · exact ⟨pos, rfl, rfl⟩

theorem fullAdd_spec (a b c : Trit) :
    ∃ s k, fullAdd a b c = .ok (s, k) ∧ s.toI8 + 3 * k.toI8 = a.toI8 + b.toI8 + c.toI8 := by
  cases a <;> cases b <;> cases c <;> exact ⟨_, _, rfl, rfl⟩

end Trit

/-! ## The number of a list of trits -/

section Number

variable {n : Nat}

/-- The number that trits stand for, the units first. -/
def number (trits : List.Vector Trit n) : Int := Balanced.value (trits.toList.map Trit.toI8)

theorem number_cons (t : Trit) (rest : List.Vector Trit n) :
    number (t ::ᵥ rest) = t.toI8 + 3 * number rest := by
  rw [number, List.Vector.toList_cons, List.map_cons, Balanced.value_cons, number]

theorem number_eq_head_tail (trits : List.Vector Trit (n + 1)) :
    number trits = trits.head.toI8 + 3 * number trits.tail := by
  rw [← number_cons, List.Vector.cons_head_tail]

theorem number_zero (trits : List.Vector Trit 0) : number trits = 0 := by
  rw [List.Vector.eq_nil trits]
  rfl

theorem digits_of_trits (trits : List.Vector Trit n) :
    ∀ d ∈ trits.toList.map Trit.toI8, Balanced.Digit d := by
  intro d member
  obtain ⟨t, _, rfl⟩ := List.mem_map.mp member
  exact t.digit_toI8

theorem number_bounds (trits : List.Vector Trit n) :
    -Balanced.reach n ≤ number trits ∧ number trits ≤ Balanced.reach n := by
  have bounds := Balanced.value_bounds (digits_of_trits trits)
  rwa [List.length_map, List.Vector.toList_length] at bounds

/-- Trits that stand for a number congruent to an integer stand for its balanced residue. -/
theorem number_eq_bmod {trits : List.Vector Trit n} {v : Int}
    (congruent : (3 : Int) ^ n ∣ number trits - v) : number trits = v.bmod (3 ^ n) := by
  have size : (trits.toList.map Trit.toI8).length = n := by
    rw [List.length_map, List.Vector.toList_length]
  have residue := Balanced.value_eq_bmod (v := v) (digits_of_trits trits)
  rw [size] at residue
  exact residue congruent

end Number

/-! ## Conversions -/

/-- A word of nine trits. -/
abbrev Tryte : Type := List.Vector Trit 9

/-- The next `n` trits of a number. -/
def fromI32Trits : (n : Nat) → Int → Checked (List.Vector Trit n)
  | 0, _ => pure .nil
  | n + 1, val => do
      let next ← signedIn 32 (val + 1)
      let rem := next.emod 3 - 1
      let trit ← expect (Trit.fromI8 rem)
      let rest ← signedIn 32 (val - rem)
      let trits ← fromI32Trits n (rest.tdiv 3)
      pure (trit ::ᵥ trits)

/-- Add trits, the first of them of weight `power`, to a number. -/
def toI32From : {n : Nat} → List.Vector Trit n → Int → Int → Checked Int
  | 0, _, val, _ => pure val
  | _ + 1, trits, val, power => do
      let term ← signedIn 32 (trits.head.toI8 * power)
      let val ← signedIn 32 (val + term)
      let power ← signedIn 32 (power * 3)
      toI32From trits.tail val power

/-- Add trits with a carry. -/
def addTrits : {n : Nat} → List.Vector Trit n → List.Vector Trit n → Trit →
    Checked (List.Vector Trit n)
  | 0, _, _, _ => pure .nil
  | _ + 1, a, b, carry => do
      let (s, c) ← a.head.fullAdd b.head carry
      let rest ← addTrits a.tail b.tail c
      pure (s ::ᵥ rest)

namespace Tryte

def ZERO : Tryte := List.Vector.replicate 9 Trit.zero

def fromI32 (val : Int) : Checked Tryte := fromI32Trits 9 val

def toI32 (self : Tryte) : Checked Int := toI32From self 0 1

def neg (self : Tryte) : Tryte := self.map Trit.negate

def add (self other : Tryte) : Checked Tryte := addTrits self other Trit.zero

/-- Subtraction, as the software ALU does it. -/
def sub (a b : Tryte) : Checked Tryte := add a (neg b)

end Tryte

open Tryte

/-- Multiply two trytes: the low and the high word of the product. -/
def mulTryte (a b : Tryte) : Checked (Tryte × Tryte) := do
  let av ← toI32 a
  let bv ← toI32 b
  let product ← signedIn 64 (av * bv)
  let rem ← remIn 64 product 19683
  let shifted ← signedIn 64 (rem + 9841)
  let lo ← signedIn 64 (shifted.emod 19683 - 9841)
  let above ← signedIn 64 (product - lo)
  let hi ← divIn 64 above 19683
  let low ← fromI32 (lo.bmod (2 ^ 32))
  let high ← fromI32 (hi.bmod (2 ^ 32))
  pure (low, high)

/-- Divide two trytes: the quotient and the remainder. Division by zero returns zero and the
dividend. -/
def divTryte (a b : Tryte) : Checked (Tryte × Tryte) := do
  let bv ← toI32 b
  if bv = 0 then pure (ZERO, a)
  else
    let av ← toI32 a
    let quotient ← divIn 32 av bv
    let remainder ← remIn 32 av bv
    let q ← fromI32 quotient
    let r ← fromI32 remainder
    pure (q, r)

/-! ## What the operations compute -/

/-- Neither the least nor the largest word of 32 bits. -/
def Inner (v : Int) : Prop := -2 ^ 31 < v ∧ v < 2 ^ 31 - 1

/-- The remainder taken of an inner word is a digit, and what is left of the word is inner. -/
theorem digit_of_word {v : Int} (inner : Inner v) :
    ∃ d q, v = d + 3 * q ∧ Balanced.Digit d ∧ Inner q ∧ (v + 1).emod 3 - 1 = d ∧
      (v - d).tdiv 3 = q := by
  obtain ⟨low, high⟩ := inner
  refine ⟨(v + 1) % 3 - 1, (v + 1) / 3, ?_, ?_, ?_, rfl, ?_⟩
  · omega
  · constructor <;> omega
  · constructor <;> omega
  · have exact : v - ((v + 1) % 3 - 1) = 3 * ((v + 1) / 3) := by omega
    rw [exact, Int.mul_tdiv_cancel_left _ (by decide)]

theorem fromI32Trits_spec (n : Nat) {v : Int} (inner : Inner v) :
    ∃ trits : List.Vector Trit n, fromI32Trits n v = .ok trits ∧
      (3 : Int) ^ n ∣ number trits - v := by
  induction n generalizing v with
  | zero => exact ⟨.nil, rfl, by rw [pow_zero]; exact one_dvd _⟩
  | succ n ih =>
    obtain ⟨d, q, split, digit, innerRest, remainder, rest⟩ := digit_of_word inner
    obtain ⟨trits, converted, k, congruent⟩ := ih innerRest
    obtain ⟨t, read, ofTrit⟩ := Trit.fromI8_of_digit digit
    obtain ⟨low, high⟩ := inner
    obtain ⟨least, most⟩ := digit
    have room : Word 32 (v + 1) := by constructor <;> norm_num <;> omega
    have roomRest : Word 32 (v - d) := by constructor <;> norm_num <;> omega
    refine ⟨t ::ᵥ trits, ?_, k, ?_⟩
    · rw [fromI32Trits, bind_of_ok (signedIn_of_word room)]
      simp only [remainder]
      rw [bind_of_ok (expect_eq_ok.mpr read), bind_of_ok (signedIn_of_word roomRest)]
      simp only [rest]
      rw [bind_of_ok converted]
      rfl
    · rw [number_cons, ofTrit, split, pow_succ]
      linarith

theorem fromI32_spec {v : Int} (inner : Inner v) :
    ∃ t : Tryte, fromI32 v = .ok t ∧ number t = v.bmod (3 ^ 9) := by
  obtain ⟨t, converted, congruent⟩ := fromI32Trits_spec 9 inner
  exact ⟨t, converted, number_eq_bmod congruent⟩

/-- A number within the reach of nine trits is kept. -/
theorem fromI32_of_reach {v : Int} (inside : -9841 ≤ v ∧ v ≤ 9841) :
    ∃ t : Tryte, fromI32 v = .ok t ∧ number t = v := by
  obtain ⟨t, converted, residue⟩ := fromI32_spec (v := v) ⟨by omega, by omega⟩
  exact ⟨t, converted, residue.trans (Balanced.eq_bmod (n := 9) inside (by simp)).symm⟩

theorem toI32From_spec {n : Nat} (trits : List.Vector Trit n) {val power : Int}
    (positive : 0 ≤ power) (room : |val| + power * Balanced.reach n < 2 ^ 31)
    (last : power * 3 ^ n < 2 ^ 31) :
    toI32From trits val power = .ok (val + power * number trits) := by
  induction n generalizing val power with
  | zero =>
    rw [number_zero, mul_zero, add_zero]
    rfl
  | succ n ih =>
    obtain ⟨least, most⟩ := trits.head.digit_toI8
    have reach : 0 ≤ power * Balanced.reach n := mul_nonneg positive (Balanced.reach_nonneg n)
    have weight : power * 3 ≤ power * 3 ^ (n + 1) := by
      refine mul_le_mul_of_nonneg_left ?_ positive
      rw [pow_succ]
      linarith [one_le_pow₀ (n := n) (show (1 : Int) ≤ 3 by decide)]
    rw [Balanced.reach] at room
    have below : -power ≤ trits.head.toI8 * power := by nlinarith
    have above : trits.head.toI8 * power ≤ power := by nlinarith
    have size : |val + trits.head.toI8 * power| ≤ |val| + power :=
      (abs_add_le _ _).trans (by linarith [abs_le.mpr ⟨below, above⟩])
    obtain ⟨sumLow, sumHigh⟩ := abs_le.mp size
    have nonneg := abs_nonneg val
    have roomTerm : Word 32 (trits.head.toI8 * power) := by constructor <;> norm_num <;> linarith
    have roomSum : Word 32 (val + trits.head.toI8 * power) := by
      constructor <;> norm_num <;> linarith
    have roomPower : Word 32 (power * 3) := by constructor <;> norm_num <;> linarith
    rw [toI32From, bind_of_ok (signedIn_of_word roomTerm), bind_of_ok (signedIn_of_word roomSum),
      bind_of_ok (signedIn_of_word roomPower)]
    rw [ih trits.tail (by linarith) (by linarith) (by rw [pow_succ] at last; linarith),
      number_eq_head_tail trits]
    congr 1
    ring

theorem toI32_spec (t : Tryte) : toI32 t = .ok (number t) := by
  rw [toI32, toI32From_spec t (by decide) (by decide) (by decide), zero_add, one_mul]

theorem addTrits_spec {n : Nat} (a b : List.Vector Trit n) (carry : Trit) :
    ∃ sum, addTrits a b carry = .ok sum ∧
      (3 : Int) ^ n ∣ number sum - (number a + number b + carry.toI8) := by
  induction n generalizing carry with
  | zero => exact ⟨.nil, rfl, by rw [pow_zero]; exact one_dvd _⟩
  | succ n ih =>
    obtain ⟨s, c, added, sum⟩ := a.head.fullAdd_spec b.head carry
    obtain ⟨rest, addedRest, k, congruent⟩ := ih a.tail b.tail c
    refine ⟨s ::ᵥ rest, ?_, k, ?_⟩
    · rw [addTrits, bind_of_ok added]
      simp only
      rw [bind_of_ok addedRest]
      rfl
    · rw [number_cons, number_eq_head_tail a, number_eq_head_tail b, pow_succ]
      linarith

theorem number_map_negate {n : Nat} (trits : List.Vector Trit n) :
    number (trits.map Trit.negate) = -number trits := by
  induction n with
  | zero =>
    rw [number_zero, number_zero]
    rfl
  | succ n ih =>
    rw [number_eq_head_tail (trits.map _), List.Vector.head_map, List.Vector.tail_map, ih,
      Trit.toI8_negate, number_eq_head_tail trits]
    ring

theorem add_spec (a b : Tryte) :
    ∃ sum, add a b = .ok sum ∧ number sum = (number a + number b).bmod (3 ^ 9) := by
  obtain ⟨sum, added, congruent⟩ := addTrits_spec a b Trit.zero
  exact ⟨sum, added, number_eq_bmod (by simpa [Trit.toI8] using congruent)⟩

/-- A tryte holds a number of at most nine digits. -/
theorem tryte_bounds (t : Tryte) : -9841 ≤ number t ∧ number t ≤ 9841 := number_bounds t

theorem mulTryte_spec (a b : Tryte) : ∃ low high : Tryte, mulTryte a b = .ok (low, high) ∧
    number low = (number a * number b).bmod (3 ^ 9) ∧
    number high * 3 ^ 9 + number low = number a * number b := by
  obtain ⟨aLow, aHigh⟩ := tryte_bounds a
  obtain ⟨bLow, bHigh⟩ := tryte_bounds b
  have size : |number a * number b| ≤ 9841 * 9841 := by
    rw [abs_mul]
    exact mul_le_mul (abs_le.mpr ⟨aLow, aHigh⟩) (abs_le.mpr ⟨bLow, bHigh⟩) (abs_nonneg _)
      (by decide)
  obtain ⟨productLow, productHigh⟩ := abs_le.mp size
  rw [mulTryte, bind_of_ok (toI32_spec a), bind_of_ok (toI32_spec b)]
  generalize number a * number b = product at *
  -- the remainder shifted by half the modulus gives the balanced remainder
  obtain ⟨q, r, split, least, most⟩ : ∃ q r, product = q * 19683 + r ∧ -9841 ≤ r ∧ r ≤ 9841 :=
    ⟨(product + 9841) / 19683, (product + 9841) % 19683 - 9841, by omega, by omega, by omega⟩
  have quotient : Word 64 (product.tdiv 19683) := by
    have bound := Int.natAbs_tdiv_le_natAbs product 19683
    constructor <;> norm_num <;> omega
  have remainder : (product.tmod 19683 + 9841).emod 19683 - 9841 = r := by
    have cut := Int.tmod_add_mul_tdiv product 19683
    show (product.tmod 19683 + 9841) % 19683 - 9841 = r
    omega
  obtain ⟨remLow, remHigh⟩ : -19683 < product.tmod 19683 ∧ product.tmod 19683 < 19683 :=
    ⟨Int.lt_tmod_of_pos product (by decide), Int.tmod_lt_of_pos product (by decide)⟩
  have exact : (product - r).tdiv 19683 = q := by
    rw [split, add_sub_cancel_right, Int.mul_tdiv_cancel q (by decide)]
  have keepLow : r.bmod (2 ^ 32) = r := Int.bmod_eq_of_le (by norm_num; omega) (by norm_num; omega)
  have keepHigh : q.bmod (2 ^ 32) = q := Int.bmod_eq_of_le (by norm_num; omega) (by norm_num; omega)
  obtain ⟨low, toLow, isLow⟩ := fromI32_of_reach ⟨least, most⟩
  obtain ⟨high, toHigh, isHigh⟩ := fromI32_of_reach (v := q) ⟨by omega, by omega⟩
  refine ⟨low, high, ?_, ?_, ?_⟩
  · rw [bind_of_ok (signedIn_of_word (by constructor <;> norm_num <;> omega)),
      bind_of_ok (remIn_of_word (by decide) quotient),
      bind_of_ok (signedIn_of_word (by constructor <;> norm_num <;> omega)), remainder,
      bind_of_ok (signedIn_of_word (by constructor <;> norm_num <;> omega)),
      bind_of_ok (signedIn_of_word (by constructor <;> norm_num <;> omega)),
      bind_of_ok (divIn_of_word (by decide) (by rw [exact]; constructor <;> norm_num <;> omega)),
      exact, keepLow, keepHigh, bind_of_ok toLow, bind_of_ok toHigh]
    rfl
  · rw [isLow]
    exact Balanced.eq_bmod (n := 9) ⟨least, most⟩ ⟨-q, by rw [split]; ring⟩
  · rw [isLow, isHigh, split]
    rfl

theorem divTryte_spec (a b : Tryte) (nonzero : number b ≠ 0) : ∃ q r : Tryte,
    divTryte a b = .ok (q, r) ∧ number q = (number a).tdiv (number b) ∧
    number r = (number a).tmod (number b) := by
  obtain ⟨aLow, aHigh⟩ := tryte_bounds a
  have quotient : |(number a).tdiv (number b)| ≤ 9841 := by
    have bound := Int.natAbs_tdiv_le_natAbs (number a) (number b)
    rw [abs_le]
    omega
  have remainder : |(number a).tmod (number b)| ≤ 9841 := by
    have bound : ((number a).tmod (number b)).natAbs ≤ (number a).natAbs := by
      rw [Int.natAbs_tmod]
      exact Nat.mod_le _ _
    rw [abs_le]
    omega
  obtain ⟨low, high⟩ := abs_le.mp quotient
  have room : Word 32 ((number a).tdiv (number b)) := by constructor <;> norm_num <;> omega
  obtain ⟨q, toQ, isQ⟩ := fromI32_of_reach (abs_le.mp quotient)
  obtain ⟨r, toR, isR⟩ := fromI32_of_reach (abs_le.mp remainder)
  refine ⟨q, r, ?_, isQ, isR⟩
  rw [divTryte, bind_of_ok (toI32_spec b), if_neg nonzero, bind_of_ok (toI32_spec a),
    bind_of_ok (divIn_of_word nonzero room), bind_of_ok (remIn_of_word nonzero room),
    bind_of_ok toQ, bind_of_ok toR]
  rfl

/-- The conversion of a word and the operations on two trytes agree with arithmetic on
balanced residues modulo `3 ^ 9`. -/
structure Arithmetic (v : Int) (a b : Tryte) : Prop where
  converts : ∃ t, fromI32 v = .ok t ∧ toI32 t = .ok (v.bmod (3 ^ 9))
  adds : ∃ t, add a b = .ok t ∧ number t = (number a + number b).bmod (3 ^ 9)
  negates : number (neg a) = -number a
  subtracts : ∃ t, sub a b = .ok t ∧ number t = (number a - number b).bmod (3 ^ 9)
  multiplies : ∃ low high, mulTryte a b = .ok (low, high) ∧
    number low = (number a * number b).bmod (3 ^ 9) ∧
    number high * 3 ^ 9 + number low = number a * number b
  divides : number b ≠ 0 → ∃ q r, divTryte a b = .ok (q, r) ∧
    number a = number q * number b + number r ∧
    number q = (number a).tdiv (number b) ∧ number r = (number a).tmod (number b)

theorem fromI32_least : fromI32 (-2 ^ 31) = .error .fault := rfl

theorem fromI32_largest : fromI32 (2 ^ 31 - 1) = .error .fault := rfl

/-- **The ternary words compute with balanced residues, but for the two extreme words, which
the conversion does not survive.** -/
theorem arithmetic_iff (v : Int32) (a b : Tryte) :
    Arithmetic v.toInt a b ↔ v.toInt ≠ -2 ^ 31 ∧ v.toInt ≠ 2 ^ 31 - 1 := by
  constructor
  · intro holds
    obtain ⟨t, converted, _⟩ := holds.converts
    constructor
    · intro least
      rw [least, fromI32_least] at converted
      exact nomatch converted
    · intro largest
      rw [largest, fromI32_largest] at converted
      exact nomatch converted
  · rintro ⟨notLeast, notLargest⟩
    have low := v.le_toInt
    have high := v.toInt_lt
    obtain ⟨t, converted, residue⟩ := fromI32_spec (v := v.toInt) ⟨by omega, by omega⟩
    obtain ⟨difference, subtracted, isDifference⟩ := add_spec a (neg b)
    have negated : ∀ c : Tryte, number (neg c) = -number c := number_map_negate
    rw [negated, ← sub_eq_add_neg] at isDifference
    refine ⟨⟨t, converted, ?_⟩, add_spec a b, negated a, ⟨difference, subtracted, isDifference⟩,
      mulTryte_spec a b, ?_⟩
    · rw [toI32_spec, residue]
    · intro nonzero
      obtain ⟨q, r, divided, isQ, isR⟩ := divTryte_spec a b nonzero
      refine ⟨q, r, divided, ?_, isQ, isR⟩
      rw [isQ, isR]
      exact (Int.tdiv_mul_add_tmod (number a) (number b)).symm

theorem not_arithmetic : ¬ ∀ (v : Int32) (a b : Tryte), Arithmetic v.toInt a b := by
  intro always
  obtain ⟨t, converted, _⟩ := (always Int32.maxValue ZERO ZERO).converts
  have same : (Int32.maxValue).toInt = 2 ^ 31 - 1 := rfl
  rw [same, fromI32_largest] at converted
  exact nomatch converted

end RustyPenguin.Ternary
