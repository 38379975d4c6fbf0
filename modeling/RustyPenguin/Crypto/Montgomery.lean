import Mathlib.Data.Nat.ModEq
import Mathlib.Tactic.LinearCombination
import RustyPenguin.Crypto.Bignum
import RustyPenguin.Foundation.Limbs

/-!
# Montgomery multiplication

What the row operations, comparisons and subtractions of the limb arithmetic compute, and
from them the Montgomery product. No sum or product of double words leaves its word, whatever
the limbs (`row_ok`, `montStep_ok`).

A step of the product divides exactly: `2^64` times the accumulator after it is the
accumulator before it plus the multiplier's limb times the multiplicand plus a multiple of the
modulus. Over all limbs this gives an accumulator below twice the modulus as soon as the
multiplier is below the modulus, even when the multiplicand is not, so one subtraction is
enough (`montMul_ok`).
-/

set_option autoImplicit false

namespace RustyPenguin.Crypto

open Checked Limbs

/-! ## The inverse of the lowest limb -/

/-- One Newton step squares the error. -/
theorem newton_step (n0 x : UInt64) :
    1 - n0 * (x * (2 - n0 * x)) = (1 - n0 * x) * (1 - n0 * x) := by
  grind

/-- **The Newton inverse**: for an odd limb, six steps give `-n⁻¹` modulo `2^64`. -/
theorem n0inv_mul {n0 : UInt64} (odd : n0 &&& 1 ≠ 0) : n0inv n0 * n0 + 1 = 0 := by
  have half : ∃ u : UInt64, 1 - n0 * 1 = 2 * u := by
    have low : n0.toNat % 2 = 1 := by
      by_contra even
      refine odd (UInt64.toNat_inj.mp ?_)
      have mask : n0.toNat &&& (1 : UInt64).toNat = n0.toNat % 2 := Nat.and_one_is_mod _
      rw [UInt64.toNat_and, mask, UInt64.toNat_zero]
      omega
    have bound := n0.toNat_lt
    have split : n0 = 2 * UInt64.ofNat (n0.toNat / 2) + 1 := by
      refine UInt64.toNat_inj.mp ?_
      have one : (1 : UInt64).toNat = 1 := rfl
      have two : (2 : UInt64).toNat = 2 := rfl
      rw [UInt64.toNat_add, UInt64.toNat_mul, UInt64.toNat_ofNat', one, two]
      omega
    exact ⟨0 - UInt64.ofNat (n0.toNat / 2), by grind⟩
  obtain ⟨u, start⟩ := half
  have square : (4294967296 : UInt64) * 4294967296 = 0 := by decide
  have error : ∀ x y : UInt64, x * (2 - n0 * x) = y → 1 - n0 * y = (1 - n0 * x) * (1 - n0 * x) := by
    intro x y same
    rw [← same, newton_step]
  have unroll : n0inv n0 = 0 - (List.range 6).foldl (fun x _ => x * (2 - n0 * x)) 1 := rfl
  have steps : (List.range 6) = [0, 1, 2, 3, 4, 5] := rfl
  rw [unroll, steps]
  simp only [List.foldl_cons, List.foldl_nil]
  generalize h1 : (1 : UInt64) * (2 - n0 * 1) = x1
  generalize h2 : x1 * (2 - n0 * x1) = x2
  generalize h3 : x2 * (2 - n0 * x2) = x3
  generalize h4 : x3 * (2 - n0 * x3) = x4
  generalize h5 : x4 * (2 - n0 * x4) = x5
  generalize h6 : x5 * (2 - n0 * x5) = x6
  have e1 := error _ _ h1
  have e2 := error _ _ h2
  have e3 := error _ _ h3
  have e4 := error _ _ h4
  have e5 := error _ _ h5
  have e6 := error _ _ h6
  rw [start] at e1
  have power : 1 - n0 * x5 = 4294967296 * u ^ 32 := by
    rw [e5, e4, e3, e2, e1]
    grind
  have last : 1 - n0 * x6 = 0 := by
    rw [e6, power]
    grind
  grind

/-! ## Rows, comparisons and subtractions -/

theorem mul_words_le {x m : Nat} (word : x < 2 ^ 64) (word' : m < 2 ^ 64) :
    x * m ≤ (2 ^ 64 - 1) * (2 ^ 64 - 1) :=
  Nat.mul_le_mul (Nat.le_sub_one_of_lt word) (Nat.le_sub_one_of_lt word')

/-- A row never leaves its double word, and adds the multiple of one list to the other. -/
theorem row_ok {m : Nat} (word : m < 2 ^ 64) : ∀ {a t : List UInt64} {c : Nat},
    a.length = t.length → c < 2 ^ 64 →
      ∃ out c', row m c a t = .ok (out, c') ∧ out.length = a.length ∧ c' < 2 ^ 64 ∧
        value out + 2 ^ (64 * a.length) * c' = value t + value a * m + c := by
  intro a
  induction a with
  | nil =>
    intro t c size carry
    obtain rfl := List.length_eq_zero_iff.mp size.symm
    exact ⟨[], c, rfl, rfl, carry, by simp⟩
  | cons x a rest =>
    intro t c size carry
    match t with
    | y :: t =>
      have most := mul_words_le x.toNat_lt word
      have low := y.toNat_lt
      obtain ⟨out, c', runs, size', carry', total⟩ := @rest t
        ((y.toNat + x.toNat * m + c) >>> 64) (Nat.succ.inj size)
        (by rw [Nat.shiftRight_eq_div_pow]; omega)
      refine ⟨UInt64.ofNat (y.toNat + x.toNat * m + c) :: out, c', ?_, ?_, carry', ?_⟩
      · rw [row, mulIn, if_pos (by omega)]
        refine bind_eq_ok.mpr ⟨_, rfl, ?_⟩
        rw [addIn, if_pos (by omega)]
        refine bind_eq_ok.mpr ⟨_, rfl, ?_⟩
        rw [addIn, if_pos (by omega)]
        refine bind_eq_ok.mpr ⟨_, rfl, ?_⟩
        exact bind_eq_ok.mpr ⟨_, runs, rfl⟩
      · rw [List.length_cons, List.length_cons, size']
      · have split := Nat.mod_add_div (y.toNat + x.toNat * m + c) (2 ^ 64)
        rw [Nat.shiftRight_eq_div_pow] at total
        rw [value_cons, value_cons, value_cons, UInt64.toNat_ofNat', List.length_cons,
          Nat.mul_succ, pow_add]
        linear_combination 2 ^ 64 * total + split

/-- Comparison from the top limb down compares the numbers. -/
theorem geFrom_ok {a b : List UInt64} (size : a.length = b.length) : ∀ {i : Nat}, i ≤ a.length →
    geFrom a b i = .ok (decide (value (b.take i) ≤ value (a.take i))) := by
  intro i
  induction i with
  | zero =>
    intro _
    rfl
  | succ i lower =>
    intro inside
    have insideA : i < a.length := by omega
    have insideB : i < b.length := by omega
    have first : index a i = .ok a[i] := index_eq_ok.mpr (List.getElem?_eq_getElem _)
    have second : index b i = .ok b[i] := index_eq_ok.mpr (List.getElem?_eq_getElem _)
    rw [geFrom, bind_of_ok first, bind_of_ok second, List.take_succ_eq_append_getElem (by omega),
      List.take_succ_eq_append_getElem (by omega), value_concat, value_concat,
      List.length_take_of_le (by omega), List.length_take_of_le (by omega)]
    generalize a[i] = x
    generalize b[i] = y
    have belowA := value_lt (a.take i)
    have belowB := value_lt (b.take i)
    rw [List.length_take_of_le (by omega)] at belowA belowB
    split
    · rename_i differ
      refine congrArg Except.ok (decide_eq_decide.mpr ?_)
      rw [UInt64.lt_iff_toNat_lt]
      have apart : x.toNat ≠ y.toNat := fun same => differ (UInt64.toNat_inj.mp same)
      constructor
      · intro less
        have step : 2 ^ (64 * i) * (y.toNat + 1) ≤ 2 ^ (64 * i) * x.toNat :=
          Nat.mul_le_mul_left _ less
        rw [Nat.mul_succ] at step
        omega
      · intro most
        by_contra more
        have step : 2 ^ (64 * i) * (x.toNat + 1) ≤ 2 ^ (64 * i) * y.toNat :=
          Nat.mul_le_mul_left _ (by omega)
        rw [Nat.mul_succ] at step
        omega
    · rename_i same
      rw [not_not.mp same, lower (by omega)]
      refine congrArg Except.ok (decide_eq_decide.mpr ?_)
      omega

theorem ge_ok {a b : List UInt64} (size : a.length = b.length) :
    ge a b = .ok (decide (value b ≤ value a)) := by
  have whole := geFrom_ok size (Nat.le_refl a.length)
  rw [ge, whole, List.take_length, size, List.take_length]

/-- Subtraction with a borrow, limb by limb, is subtraction modulo the width. -/
theorem subBorrow_ok : ∀ {a b : List UInt64} {borrow : Nat}, a.length = b.length → borrow ≤ 1 →
    ∃ out borrow', subBorrow borrow a b = .ok out ∧ out.length = a.length ∧
      value out + value b + borrow = value a + 2 ^ (64 * a.length) * borrow' := by
  intro a
  induction a with
  | nil =>
    intro b borrow size small
    obtain rfl := List.length_eq_zero_iff.mp size.symm
    exact ⟨[], borrow, rfl, rfl, by simp⟩
  | cons x a rest =>
    intro b borrow size small
    match b with
    | y :: b =>
      have first := x.toNat_lt
      have second := y.toNat_lt
      generalize diff : wrappingSub128 (wrappingSub128 x.toNat y.toNat) borrow = v
      have bit : (v >>> 64) &&& 1 = if x.toNat < y.toNat + borrow then 1 else 0 := by
        rw [Nat.and_one_is_mod, Nat.shiftRight_eq_div_pow, ← diff, wrappingSub128, wrappingSub128]
        split <;> omega
      have low : v % 2 ^ 64 + y.toNat + borrow =
          x.toNat + 2 ^ 64 * if x.toNat < y.toNat + borrow then 1 else 0 := by
        rw [← diff, wrappingSub128, wrappingSub128]
        split <;> omega
      obtain ⟨out, borrow', runs, size', total⟩ := @rest b ((v >>> 64) &&& 1) (Nat.succ.inj size)
        (by rw [bit]; split <;> omega)
      refine ⟨UInt64.ofNat v :: out, borrow', ?_, ?_, ?_⟩
      · rw [subBorrow, diff]
        exact bind_eq_ok.mpr ⟨_, runs, rfl⟩
      · rw [List.length_cons, List.length_cons, size']
      · rw [bit] at total
        rw [value_cons, value_cons, value_cons, UInt64.toNat_ofNat', List.length_cons,
          Nat.mul_succ, pow_add]
        linear_combination 2 ^ 64 * total + low

/-- Subtraction of a number that is not larger, of a number with a bit above its limbs. -/
theorem subAssign_ok {a b : List UInt64} (size : a.length = b.length) {top : Nat}
    (least : value b ≤ value a + 2 ^ (64 * a.length) * top)
    (most : value a + 2 ^ (64 * a.length) * top < value b + 2 ^ (64 * a.length)) :
    ∃ out, subAssign a b = .ok out ∧ out.length = a.length ∧
      value out + value b = value a + 2 ^ (64 * a.length) * top := by
  obtain ⟨out, borrow', runs, size', total⟩ := @subBorrow_ok a b 0 size (by decide)
  refine ⟨out, runs, size', ?_⟩
  have below := value_lt out
  rw [size'] at below
  have same : borrow' = top := by
    rcases Nat.lt_trichotomy borrow' top with less | same | more
    · have step : 2 ^ (64 * a.length) * (borrow' + 1) ≤ 2 ^ (64 * a.length) * top :=
        Nat.mul_le_mul_left _ less
      rw [Nat.mul_succ] at step
      omega
    · exact same
    · have step : 2 ^ (64 * a.length) * (top + 1) ≤ 2 ^ (64 * a.length) * borrow' :=
        Nat.mul_le_mul_left _ more
      rw [Nat.mul_succ] at step
      omega
  rw [← same]
  exact total

/-- One conditional subtraction brings a number below twice the modulus below the modulus. -/
theorem condSubtract_ok {a n : List UInt64} (size : a.length = n.length) {top : UInt64}
    (below : value a + 2 ^ (64 * a.length) * top.toNat < 2 * value n) :
    ∃ r, (do
        let big ← (if top ≠ 0 then pure true else ge a n)
        if big then subAssign a n else pure a) = Except.ok (ε := Stop) r ∧
      r.length = n.length ∧ value r < value n ∧
        value r ≡ value a + 2 ^ (64 * a.length) * top.toNat [MOD value n] := by
  have limit := value_lt n
  rw [← size] at limit
  have subtracts : value n ≤ value a + 2 ^ (64 * a.length) * top.toNat →
      ∃ r, subAssign a n = Except.ok r ∧ r.length = n.length ∧ value r < value n ∧
        value r ≡ value a + 2 ^ (64 * a.length) * top.toNat [MOD value n] := by
    intro least
    obtain ⟨r, runs, size', total⟩ := subAssign_ok size least (by omega)
    refine ⟨r, runs, size'.trans size, by omega, ?_⟩
    rw [← total]
    exact (Nat.add_mod_right _ _).symm
  by_cases carried : top = 0
  · have none_above : (2 : Nat) ^ (64 * a.length) * top.toNat = 0 := by
      rw [carried, UInt64.toNat_zero, Nat.mul_zero]
    rw [if_neg (not_not.mpr carried), ge_ok size]
    by_cases least : value n ≤ value a
    · obtain ⟨r, runs, rest⟩ := subtracts (by omega)
      refine ⟨r, ?_, rest⟩
      rw [decide_eq_true least]
      exact runs
    · refine ⟨a, ?_, size, by omega, ?_⟩
      · rw [decide_eq_false least]
        rfl
      · rw [none_above]
        rfl
  · have positive : 0 < top.toNat := by
      refine Nat.pos_of_ne_zero fun zero => carried (UInt64.toNat_inj.mp ?_)
      rw [zero, UInt64.toNat_zero]
    have step : 2 ^ (64 * a.length) * 1 ≤ 2 ^ (64 * a.length) * top.toNat :=
      Nat.mul_le_mul_left _ positive
    obtain ⟨r, runs, rest⟩ := subtracts (by omega)
    refine ⟨r, ?_, rest⟩
    rw [if_pos carried]
    exact runs

/-- The conditional subtraction never faults. -/
theorem condSubtract_total {a n : List UInt64} (size : a.length = n.length) (top : UInt64) :
    ∃ r, (do
        let big ← (if top ≠ 0 then pure true else ge a n)
        if big then subAssign a n else pure a) = Except.ok (ε := Stop) r ∧
      r.length = n.length := by
  obtain ⟨d, _, runs, size', _⟩ := @subBorrow_ok a n 0 size (by decide)
  have either : ∀ big : Bool, ∃ r,
      (if big then subAssign a n else pure a) = Except.ok (ε := Stop) r ∧ r.length = n.length := by
    intro big
    cases big with
    | false => exact ⟨a, rfl, size⟩
    | true => exact ⟨d, runs, size'.trans size⟩
  by_cases carried : top = 0
  · rw [if_neg (not_not.mpr carried), ge_ok size]
    exact either _
  · rw [if_pos carried]
    exact either true

/-! ## The product -/

/-- The number that an accumulator holds. -/
def Accumulator.total (t : Accumulator) : Nat :=
  value t.limbs + 2 ^ (64 * t.limbs.length) * t.top.toNat

section Product

variable {a n : List UInt64} {n0i : UInt64}

/-- One limb of the multiplier: nothing overflows, and the division by `2^64` is exact. -/
theorem montStep_ok {n0 : UInt64} {nrest : List UInt64} (modulus : n = n0 :: nrest)
    (inverse : n0i * n0 + 1 = 0) (sizeA : a.length = n.length) {t : Accumulator}
    (sizeT : t.limbs.length = n.length) (bi : UInt64) :
    ∃ t' m, montStep a n n0i t bi = .ok t' ∧ t'.limbs.length = n.length ∧ m < 2 ^ 64 ∧
      2 ^ 64 * t'.total = t.total + value a * bi.toNat + m * value n := by
  obtain ⟨limbs, c, runs, sizeL, carry, rowed⟩ :=
    row_ok bi.toNat_lt (sizeA.trans sizeT.symm) (by decide : 0 < 2 ^ 64)
  have many : limbs.length = nrest.length + 1 := by
    rw [sizeL, sizeA, modulus, List.length_cons]
  match limbs, many with
  | t0 :: rest, many =>
    have top := t.top.toNat_lt
    have word : t0.toNat * n0i.toNat % 2 ^ 64 < 2 ^ 64 := Nat.mod_lt _ (by decide)
    have most := mul_words_le word n0.toNat_lt
    have most' := mul_words_le t0.toNat_lt n0i.toNat_lt
    have low := t0.toNat_lt
    obtain ⟨tail, c2, runs2, sizeR, carry2, rowed2⟩ :=
      @row_ok (t0.toNat * n0i.toNat % 2 ^ 64) word nrest rest
        ((t0.toNat + t0.toNat * n0i.toNat % 2 ^ 64 * n0.toNat) >>> 64) (Nat.succ.inj many).symm
        (by rw [Nat.shiftRight_eq_div_pow]; omega)
    have exact : (t0.toNat + t0.toNat * n0i.toNat % 2 ^ 64 * n0.toNat) % 2 ^ 64 = 0 := by
      have cancel : t0 + t0 * n0i * n0 = 0 := by grind
      have cancel' := congrArg UInt64.toNat cancel
      rw [UInt64.toNat_add, UInt64.toNat_mul, UInt64.toNat_mul, UInt64.toNat_zero] at cancel'
      rw [← cancel', Nat.add_mod_mod]
    generalize quotient : t0.toNat * n0i.toNat % 2 ^ 64 = m at *
    generalize sum : t0.toNat + m * n0.toNat = y at *
    have above : (UInt64.ofNat ((t.top.toNat + c) >>> 64)).toNat = (t.top.toNat + c) / 2 ^ 64 := by
      rw [UInt64.toNat_ofNat', Nat.shiftRight_eq_div_pow]
      exact Nat.mod_eq_of_lt (by omega)
    have below : (UInt64.ofNat (t.top.toNat + c)).toNat = (t.top.toNat + c) % 2 ^ 64 :=
      UInt64.toNat_ofNat'
    generalize carried : (t.top.toNat + c) % 2 ^ 64 + c2 = z at *
    have small : (t.top.toNat + c) / 2 ^ 64 + z / 2 ^ 64 < 2 ^ 64 := by omega
    refine ⟨⟨tail ++ [UInt64.ofNat z], UInt64.ofNat ((t.top.toNat + c) / 2 ^ 64 + z / 2 ^ 64)⟩, m,
      ?_, ?_, word, ?_⟩
    · rw [montStep]
      refine bind_eq_ok.mpr ⟨_, runs, ?_⟩
      dsimp only
      rw [addIn, if_pos (by omega)]
      refine bind_eq_ok.mpr ⟨_, rfl, ?_⟩
      rw [modulus]
      dsimp only
      rw [mulIn, if_pos (by omega)]
      refine bind_eq_ok.mpr ⟨_, rfl, ?_⟩
      rw [quotient, mulIn, if_pos (by omega)]
      refine bind_eq_ok.mpr ⟨_, rfl, ?_⟩
      rw [addIn, sum, if_pos (by omega)]
      refine bind_eq_ok.mpr ⟨_, rfl, ?_⟩
      refine bind_eq_ok.mpr ⟨_, runs2, ?_⟩
      dsimp only
      rw [below, above, addIn, carried, if_pos (by omega)]
      refine bind_eq_ok.mpr ⟨_, rfl, ?_⟩
      rw [addIn, Nat.shiftRight_eq_div_pow, if_pos small]
      exact bind_eq_ok.mpr ⟨_, rfl, rfl⟩
    · rw [List.length_append, sizeR, modulus]
      rfl
    · have sizeN : n.length = nrest.length + 1 := by rw [modulus, List.length_cons]
      have wide : (2 : Nat) ^ (64 * n.length) = 2 ^ 64 * 2 ^ (64 * nrest.length) := by
        rw [sizeN, Nat.mul_succ, pow_add, Nat.mul_comm]
      have nValue : value n = n0.toNat + 2 ^ 64 * value nrest := by rw [modulus, value_cons]
      have splitX := Nat.mod_add_div (t.top.toNat + c) (2 ^ 64)
      have splitZ := Nat.mod_add_div z (2 ^ 64)
      have splitY := Nat.mod_add_div y (2 ^ 64)
      rw [exact] at splitY
      rw [Nat.shiftRight_eq_div_pow] at rowed2
      rw [sizeA, wide, value_cons] at rowed
      have total : Accumulator.total ⟨tail ++ [UInt64.ofNat z],
          UInt64.ofNat ((t.top.toNat + c) / 2 ^ 64 + z / 2 ^ 64)⟩ =
          value tail + 2 ^ (64 * nrest.length) * (z % 2 ^ 64) +
            2 ^ 64 * 2 ^ (64 * nrest.length) * ((t.top.toNat + c) / 2 ^ 64 + z / 2 ^ 64) := by
        rw [Accumulator.total, value_concat, List.length_append, sizeR, UInt64.toNat_ofNat',
          UInt64.toNat_ofNat', Nat.mod_eq_of_lt small, List.length_singleton, ← sizeN, wide]
      rw [total, Accumulator.total, sizeT, wide, nValue]
      linear_combination 2 ^ 64 * rowed2 + rowed + splitY + sum.symm +
        2 ^ 64 * 2 ^ (64 * nrest.length) * (splitZ + carried.symm + splitX)

/-- All limbs of a multiplier, from any accumulator. -/
theorem montSteps_ok {n0 : UInt64} {nrest : List UInt64} (modulus : n = n0 :: nrest)
    (inverse : n0i * n0 + 1 = 0) (sizeA : a.length = n.length) : ∀ {b : List UInt64}
    {t : Accumulator}, t.limbs.length = n.length →
      ∃ t' m, b.foldlM (montStep a n n0i) t = .ok t' ∧ t'.limbs.length = n.length ∧
        m < 2 ^ (64 * b.length) ∧
          2 ^ (64 * b.length) * t'.total = t.total + value a * value b + m * value n := by
  intro b
  induction b with
  | nil =>
    intro t sizeT
    exact ⟨t, 0, rfl, sizeT, Nat.one_pos, by simp⟩
  | cons x b rest =>
    intro t sizeT
    obtain ⟨t1, m1, runs1, size1, word1, total1⟩ := montStep_ok modulus inverse sizeA sizeT x
    obtain ⟨t', m', runs', size', word', total'⟩ := rest size1
    have wide : (2 : Nat) ^ (64 * (x :: b).length) = 2 ^ 64 * 2 ^ (64 * b.length) := by
      rw [List.length_cons, Nat.mul_succ, pow_add, Nat.mul_comm]
    refine ⟨t', m1 + 2 ^ 64 * m', ?_, size', ?_, ?_⟩
    · rw [List.foldlM_cons]
      exact bind_eq_ok.mpr ⟨t1, runs1, runs'⟩
    · have step : 2 ^ 64 * (m' + 1) ≤ 2 ^ 64 * 2 ^ (64 * b.length) := Nat.mul_le_mul_left _ word'
      rw [wide]
      omega
    · rw [wide, value_cons]
      linear_combination 2 ^ 64 * total' + total1

/-- **The Montgomery product**: for a multiplier below the modulus and any multiplicand of its
length, nothing overflows, and the product is below the modulus and is `a * b` divided by the
width. -/
theorem montMul_ok {n0 : UInt64} {nrest : List UInt64} (modulus : n = n0 :: nrest)
    (inverse : n0i * n0 + 1 = 0) (sizeA : a.length = n.length) {b : List UInt64}
    (sizeB : b.length = n.length) (reduced : value b < value n) :
    ∃ r, montMul a b n n0i = .ok r ∧ r.length = n.length ∧ value r < value n ∧
      2 ^ (64 * n.length) * value r ≡ value a * value b [MOD value n] := by
  obtain ⟨t, m, runs, size, word, total⟩ := @montSteps_ok a n n0i n0 nrest modulus inverse sizeA b
    ⟨List.replicate n.length 0, 0⟩ List.length_replicate
  have start : Accumulator.total ⟨List.replicate n.length 0, 0⟩ = 0 := by
    rw [Accumulator.total, value_replicate_zero, UInt64.toNat_zero, Nat.mul_zero]
  have belowA := value_lt a
  rw [start, Nat.zero_add, sizeB] at total
  rw [sizeB] at word
  rw [sizeA] at belowA
  have positive : 0 < 2 ^ (64 * n.length) := Nat.two_pow_pos _
  have below : t.total < 2 * value n := by
    by_contra above
    have least : 2 ^ (64 * n.length) * (2 * value n) ≤ 2 ^ (64 * n.length) * t.total :=
      Nat.mul_le_mul_left _ (Nat.not_lt.mp above)
    have first : value a * value b ≤ 2 ^ (64 * n.length) * value b :=
      Nat.mul_le_mul_right _ (Nat.le_of_lt belowA)
    have first' : 2 ^ (64 * n.length) * (value b + 1) ≤ 2 ^ (64 * n.length) * value n :=
      Nat.mul_le_mul_left _ reduced
    have second : m * value n ≤ 2 ^ (64 * n.length) * value n :=
      Nat.mul_le_mul_right _ (Nat.le_of_lt word)
    rw [Nat.mul_succ] at first'
    rw [Nat.mul_left_comm] at least
    omega
  obtain ⟨r, subtracts, sizeR, belowR, congruent⟩ := condSubtract_ok size below
  refine ⟨r, ?_, sizeR, belowR, ?_⟩
  · rw [montMul, if_neg (by omega), List.take_of_length_le (Nat.le_of_eq sizeB)]
    exact bind_eq_ok.mpr ⟨t, runs, subtracts⟩
  · calc 2 ^ (64 * n.length) * value r
        ≡ 2 ^ (64 * n.length) * t.total [MOD value n] := congruent.mul_left _
      _ = value a * value b + m * value n := total
      _ ≡ value a * value b [MOD value n] := Nat.add_mul_mod_self_right _ _ _

/-- The Montgomery product never faults, and keeps the length. -/
theorem montMul_total {n0 : UInt64} {nrest : List UInt64} (modulus : n = n0 :: nrest)
    (inverse : n0i * n0 + 1 = 0) (sizeA : a.length = n.length) {b : List UInt64}
    (sizeB : b.length = n.length) : ∃ r, montMul a b n n0i = .ok r ∧ r.length = n.length := by
  obtain ⟨t, _, runs, size, _⟩ := @montSteps_ok a n n0i n0 nrest modulus inverse sizeA b
    ⟨List.replicate n.length 0, 0⟩ List.length_replicate
  obtain ⟨r, subtracts, sizeR⟩ := condSubtract_total size t.top
  refine ⟨r, ?_, sizeR⟩
  rw [montMul, if_neg (by omega), List.take_of_length_le (Nat.le_of_eq sizeB)]
  exact bind_eq_ok.mpr ⟨t, runs, subtracts⟩

end Product

end RustyPenguin.Crypto
