import Mathlib.Data.Nat.ModEq
import Mathlib.Data.Nat.Prime.Basic
import Mathlib.Logic.Function.Iterate
import Mathlib.Tactic.NormNum
import Mathlib.Tactic.Ring
import RustyPenguin.Crypto.P256.Integers

/-!
# Multiplication modulo the group order

`fnMul` walks over the bits of one factor from the lowest, adding the other factor, doubled
once for each bit, to an accumulator. The additions are exact whatever is added. A doubling
is exact below `2^255`; from there on the bit shifted out is dropped instead of being folded
back, because the subtraction of the order borrows and the borrow adds the order again
(`fnDouble_high`).

`lost a i` counts what has been dropped before bit `i`, in units of `2^256`. It is too small to
be a multiple of the order, so each set bit of the other factor above a dropped one spoils the
accumulator: `fnMulExact_iff` says exactly when the loop keeps its invariant.
-/

set_option autoImplicit false

namespace RustyPenguin.Crypto.P256

theorem val_N : val N =
    0xFFFFFFFF00000000FFFFFFFFFFFFFFFFBCE6FAADA7179E84F3B9CAC2FC632551 := by decide

theorem val_zero : val zero = 0 := rfl

/-! ## One addition, one doubling -/

/-- Addition to a reduced number is exact, whatever is added. -/
theorem fnAdd_spec {a : U256} (reduced : val a < val N) (b : U256) :
    val (fnAdd a b) < val N ∧ val (fnAdd a b) ≡ val a + val b [MOD val N] := by
  have below := val_lt b
  have sum := add256c_spec a b
  have small := val_lt (add256c a b).1
  have value : ∃ k, val (fnAdd a b) + k * val N = val a + val b ∧ val (fnAdd a b) < val N := by
    rw [fnAdd]
    dsimp only
    rw [condSub_spec]
    cases carry : (add256c a b).2 with
    | false =>
      rw [carry, Bool.toNat_false] at sum
      rw [if_neg Bool.false_ne_true]
      rw [val_N] at reduced ⊢
      split
      · exact ⟨0, by omega, by omega⟩
      · exact ⟨1, by omega, by omega⟩
    | true =>
      have difference := sub256b_spec (add256c a b).1 N
      have small' := val_lt (sub256b (add256c a b).1 N).1
      rw [carry, Bool.toNat_true] at sum
      rw [sub256b_borrow] at difference
      rw [if_pos (rfl : true = true)]
      rw [val_N] at reduced difference ⊢
      have borrows : val (add256c a b).1 <
          0xFFFFFFFF00000000FFFFFFFFFFFFFFFFBCE6FAADA7179E84F3B9CAC2FC632551 := by omega
      rw [decide_eq_true borrows, Bool.toNat_true] at difference
      split
      · exact ⟨1, by omega, by omega⟩
      · exact ⟨2, by omega, by omega⟩
  obtain ⟨k, total, less⟩ := value
  refine ⟨less, ?_⟩
  rw [← total]
  exact (Nat.add_mul_mod_self_right _ _ _).symm

/-- A limb shifted up by a bit, with the top bit of the limb below. -/
theorem toNat_shl_or_shr (x y : UInt64) :
    (x <<< 1 ||| y >>> 63).toNat = 2 * x.toNat % 2 ^ 64 + y.toNat / 2 ^ 63 := by
  have bound := y.toNat_lt
  have even : 2 * x.toNat % 2 ^ 64 = (x.toNat % 2 ^ 63) <<< 1 := by
    rw [Nat.shiftLeft_eq]
    omega
  have double : (x <<< 1).toNat = 2 * x.toNat % 2 ^ 64 := by
    rw [UInt64.toNat_shiftLeft, Nat.shiftLeft_eq, Nat.mul_comm]
    rfl
  have top : (y >>> 63).toNat = y.toNat / 2 ^ 63 := by
    rw [UInt64.toNat_shiftRight, Nat.shiftRight_eq_div_pow]
    rfl
  rw [UInt64.toNat_or, double, top, even]
  exact (Nat.shiftLeft_add_eq_or_of_lt (by omega) _).symm

theorem val_shifted (a : U256) : val (shifted a) = 2 * val a % 2 ^ 256 := by
  have a0 := a[0].toNat_lt
  have a1 := a[1].toNat_lt
  have a2 := a[2].toNat_lt
  have a3 := a[3].toNat_lt
  have low : (a[0] <<< 1).toNat = 2 * a[0].toNat % 2 ^ 64 := by
    rw [UInt64.toNat_shiftLeft, Nat.shiftLeft_eq, Nat.mul_comm]
    rfl
  rw [shifted, val_mk, low, toNat_shl_or_shr, toNat_shl_or_shr, toNat_shl_or_shr, val]
  omega

theorem fnDouble_eq (a : U256) :
    fnDouble a = condSub (if 2 ^ 255 ≤ val a then fnSub (shifted a) N else shifted a) N := by
  have a0 := a[0].toNat_lt
  have a1 := a[1].toNat_lt
  have a2 := a[2].toNat_lt
  have a3 := a[3].toNat_lt
  have top : a[3] >>> 63 ≠ 0 ↔ 2 ^ 255 ≤ val a := by
    have bit : (a[3] >>> 63).toNat = a[3].toNat / 2 ^ 63 := by
      rw [UInt64.toNat_shiftRight, Nat.shiftRight_eq_div_pow]
      rfl
    rw [Ne, ← UInt64.toNat_inj, bit, UInt64.toNat_zero, val]
    omega
  rw [fnDouble]
  simp only [top]
  rfl

/-- A doubling below `2^255` is exact. -/
theorem fnDouble_low {a : U256} (low : val a < 2 ^ 255) :
    val (fnDouble a) = 2 * val a % val N := by
  have whole : 2 * val a % 2 ^ 256 = 2 * val a := Nat.mod_eq_of_lt (by omega)
  rw [fnDouble_eq, if_neg (Nat.not_le.mpr low), condSub_spec, val_shifted, whole]
  split
  · rename_i less
    exact (Nat.mod_eq_of_lt less).symm
  · rename_i more
    rw [Nat.mod_eq_sub_mod (Nat.not_lt.mp more), Nat.mod_eq_of_lt]
    rw [val_N]
    omega

/-- A difference that borrows has the order added to it. -/
theorem fnSub_eq (a b : U256) : fnSub a b =
    if val a < val b then (add256c (sub256b a b).1 N).1 else (sub256b a b).1 := by
  rw [fnSub]
  dsimp only
  simp only [sub256b_borrow, decide_eq_true_eq]

/-- From `2^255` on, what a doubling shifts out is dropped. -/
theorem fnDouble_high {a : U256} (high : 2 ^ 255 ≤ val a) :
    val (fnDouble a) < val N ∧ val (fnDouble a) + 2 ^ 256 ≡ 2 * val a [MOD val N] := by
  have below := val_lt a
  have double := val_shifted a
  have difference := sub256b_spec (shifted a) N
  have sum := add256c_spec (sub256b (shifted a) N).1 N
  have small := val_lt (sub256b (shifted a) N).1
  have small' := val_lt (add256c (sub256b (shifted a) N).1 N).1
  rw [sub256b_borrow] at difference
  have value : ∃ k, val (fnDouble a) + k * val N + 2 ^ 256 = 2 * val a ∧
      val (fnDouble a) < val N := by
    rw [fnDouble_eq, if_pos high, condSub_spec, fnSub_eq]
    by_cases less : val (shifted a) < val N
    · rw [decide_eq_true less, Bool.toNat_true] at difference
      rw [if_pos less]
      have carried : (add256c (sub256b (shifted a) N).1 N).2.toNat ≤ 1 := Bool.toNat_le _
      rw [val_N] at less difference sum ⊢
      split
      · exact ⟨0, by omega, by omega⟩
      · exact ⟨1, by omega, by omega⟩
    · rw [decide_eq_false less, Bool.toNat_false] at difference
      rw [if_neg less]
      rw [val_N] at less difference ⊢
      split
      · exact ⟨1, by omega, by omega⟩
      · exact ⟨2, by omega, by omega⟩
  obtain ⟨k, total, less⟩ := value
  refine ⟨less, ?_⟩
  rw [← total, Nat.add_right_comm]
  exact (Nat.add_mul_mod_self_right _ _ _).symm

/-! ## The doubled factor -/

/-- The factor after `i` doublings. -/
def factor (a : U256) (i : Nat) : U256 := fnDouble^[i] a

theorem factor_succ (a : U256) (i : Nat) : factor a (i + 1) = fnDouble (factor a i) :=
  Function.iterate_succ_apply' fnDouble i a

/-- What the first `i` doublings have dropped, in units of `2^256` at the place of bit `i`. -/
def lost (a : U256) : Nat → Nat
  | 0 => 0
  | i + 1 => 2 * lost a i + if 2 ^ 255 ≤ val (factor a i) then 1 else 0

theorem lost_succ (a : U256) (i : Nat) :
    lost a (i + 1) = 2 * lost a i + if 2 ^ 255 ≤ val (factor a i) then 1 else 0 := rfl

theorem lost_lt (a : U256) (i : Nat) : lost a i < 2 ^ i := by
  induction i with
  | zero => exact Nat.one_pos
  | succ i before =>
    rw [lost_succ, pow_succ]
    split <;> omega

theorem lost_eq_zero_iff (a : U256) (i : Nat) :
    lost a i = 0 ↔ ∀ l < i, val (factor a l) < 2 ^ 255 := by
  induction i with
  | zero => exact iff_of_true rfl fun l below => absurd below (Nat.not_lt_zero l)
  | succ i before =>
    rw [lost_succ]
    constructor
    · intro none_lost l below
      have here : val (factor a i) < 2 ^ 255 := by
        by_contra high
        rw [if_pos (Nat.not_lt.mp high)] at none_lost
        exact absurd none_lost (Nat.succ_ne_zero _)
      rcases Nat.lt_succ_iff_lt_or_eq.mp below with earlier | rfl
      · exact before.mp (by omega) l earlier
      · exact here
    · intro low
      rw [if_neg (Nat.not_le.mpr (low i (Nat.lt_succ_self i))),
        before.mpr fun l below => low l (Nat.lt_succ_of_lt below)]

/-- The factor is the doubled number less what has been dropped. -/
theorem factor_congr (a : U256) (i : Nat) :
    val (factor a i) + 2 ^ 256 * lost a i ≡ 2 ^ i * val a [MOD val N] := by
  induction i with
  | zero =>
    show val a + 2 ^ 256 * 0 ≡ 2 ^ 0 * val a [MOD val N]
    rw [Nat.mul_zero, Nat.add_zero, pow_zero, Nat.one_mul]
  | succ i before =>
    have twice : 2 * (val (factor a i) + 2 ^ 256 * lost a i) ≡ 2 ^ (i + 1) * val a [MOD val N] := by
      rw [pow_succ 2 i, Nat.mul_comm (2 ^ i), Nat.mul_assoc]
      exact before.mul_left 2
    refine Nat.ModEq.trans ?_ twice
    rw [factor_succ, lost_succ]
    split
    · rename_i high
      have dropped := (fnDouble_high high).2.add_right (2 ^ 256 * (2 * lost a i))
      calc val (fnDouble (factor a i)) + 2 ^ 256 * (2 * lost a i + 1)
          = val (fnDouble (factor a i)) + 2 ^ 256 + 2 ^ 256 * (2 * lost a i) := by ring
        _ ≡ 2 * val (factor a i) + 2 ^ 256 * (2 * lost a i) [MOD val N] := dropped
        _ = 2 * (val (factor a i) + 2 ^ 256 * lost a i) := by ring
    · rename_i low
      have exact_double := (Nat.mod_modEq (2 * val (factor a i)) (val N)).add_right
        (2 ^ 256 * (2 * lost a i))
      calc val (fnDouble (factor a i)) + 2 ^ 256 * (2 * lost a i + 0)
          = 2 * val (factor a i) % val N + 2 ^ 256 * (2 * lost a i) := by
            rw [fnDouble_low (Nat.not_le.mp low), Nat.add_zero]
        _ ≡ 2 * val (factor a i) + 2 ^ 256 * (2 * lost a i) [MOD val N] := exact_double
        _ = 2 * (val (factor a i) + 2 ^ 256 * lost a i) := by ring

/-- While nothing is dropped, the factor is the reduced double. -/
theorem factor_eq {a : U256} {i : Nat} (low : ∀ l < i + 1, val (factor a l) < 2 ^ 255) :
    val (factor a (i + 1)) = 2 ^ (i + 1) * val a % val N := by
  have before := factor_congr a i
  rw [(lost_eq_zero_iff a i).mpr fun l below => low l (Nat.lt_succ_of_lt below), Nat.mul_zero,
    Nat.add_zero] at before
  rw [factor_succ, fnDouble_low (low i (Nat.lt_succ_self i)), pow_succ 2 i, Nat.mul_comm (2 ^ i),
    Nat.mul_assoc]
  exact before.mul_left 2

/-! ## The loop -/

/-- The accumulator and the factor after `i` bits. -/
def fnMulAfter (a b : U256) (i : Nat) : U256 × U256 :=
  ((bitsLe b).take i).foldl
    (fun s bit => (if bit then fnAdd s.1 s.2 else s.1, fnDouble s.2)) (zero, a)

theorem fnMul_eq (a b : U256) : fnMul a b = (fnMulAfter a b 256).1 := by
  rw [fnMul, fnMulAfter, List.take_of_length_le (Nat.le_of_eq (length_bitsLe b))]

theorem fnMulAfter_succ (a b : U256) {i : Nat} (inside : i < 256) :
    fnMulAfter a b (i + 1) =
      (if (val b).testBit i then fnAdd (fnMulAfter a b i).1 (fnMulAfter a b i).2
        else (fnMulAfter a b i).1, fnDouble (fnMulAfter a b i).2) := by
  rw [fnMulAfter, take_succ_bitsLe b inside, List.foldl_append]
  rfl

theorem fnMulAfter_factor (a b : U256) {i : Nat} (inside : i ≤ 256) :
    (fnMulAfter a b i).2 = factor a i := by
  induction i with
  | zero => rfl
  | succ i before =>
    rw [fnMulAfter_succ a b inside, factor_succ, ← before (Nat.le_of_succ_le inside)]

/-- The accumulator stays below the order. -/
theorem fnMulAfter_lt (a b : U256) {i : Nat} (inside : i ≤ 256) :
    val (fnMulAfter a b i).1 < val N := by
  induction i with
  | zero =>
    show val zero < val N
    decide
  | succ i before =>
    rw [fnMulAfter_succ a b inside]
    dsimp only
    split
    · exact (fnAdd_spec (before (Nat.le_of_succ_le inside)) _).1
    · exact before (Nat.le_of_succ_le inside)

/-- What one bit adds to the accumulator. -/
theorem fnMulAfter_congr (a b : U256) {i : Nat} (inside : i < 256) :
    val (fnMulAfter a b (i + 1)).1 ≡
      val (fnMulAfter a b i).1 + (if (val b).testBit i then val (factor a i) else 0)
        [MOD val N] := by
  have reduced := fnMulAfter_lt a b (Nat.le_of_lt inside)
  rw [fnMulAfter_succ a b inside, fnMulAfter_factor a b (Nat.le_of_lt inside)]
  dsimp only
  split
  · exact (fnAdd_spec reduced _).2
  · rfl

/-- The loop keeps its invariant: after each step the accumulator is below the order and
congruent to the product with the bits read so far. -/
def FnMulExact (a b : U256) : Prop :=
  ∀ i ≤ 256, val (fnMulAfter a b i).1 < val N ∧
    val (fnMulAfter a b i).1 ≡ val a * (val b % 2 ^ i) [MOD val N]

/-- The bits read so far, one step on. -/
theorem mod_two_pow_succ_eq (v i : Nat) :
    v % 2 ^ (i + 1) = v % 2 ^ i + 2 ^ i * (if v.testBit i then 1 else 0) := by
  rw [pow_succ, Nat.mod_mul, Nat.testBit_eq_decide_div_mod_eq]
  have bit : v / 2 ^ i % 2 = 0 ∨ v / 2 ^ i % 2 = 1 := Nat.mod_two_eq_zero_or_one _
  rcases bit with zero | one
  · rw [zero]
    rfl
  · rw [one]
    rfl

theorem coprime_N : Nat.Coprime (val N) (2 ^ 256) :=
  Nat.Coprime.pow_right 256 (Nat.coprime_two_right.mpr (by rw [val_N]; decide))

/-- The invariant is kept just when no set bit stands above a dropped one. -/
theorem fnMulExact_iff_lost (a b : U256) :
    FnMulExact a b ↔ ∀ i < 256, (val b).testBit i → lost a i = 0 := by
  constructor
  · intro keeps i inside set
    have here := (keeps i (Nat.le_of_lt inside)).2
    have next := (keeps (i + 1) inside).2
    have step := fnMulAfter_congr a b inside
    rw [if_pos set] at step
    rw [mod_two_pow_succ_eq, if_pos set, Nat.mul_one, Nat.mul_add] at next
    have added : val (factor a i) ≡ 2 ^ i * val a [MOD val N] := by
      have both := (next.symm.trans step).trans (here.add_right _)
      rw [Nat.mul_comm (2 ^ i)]
      exact (Nat.ModEq.add_left_cancel' _ both).symm
    have dropped : 2 ^ 256 * lost a i ≡ 2 ^ 256 * 0 [MOD val N] := by
      have whole := (factor_congr a i).trans added.symm
      rw [Nat.mul_zero]
      exact Nat.ModEq.add_left_cancel' (val (factor a i)) (by rw [Nat.add_zero]; exact whole)
    have zero := Nat.ModEq.cancel_left_of_coprime coprime_N dropped
    have small : lost a i < val N := by
      have bound := lost_lt a i
      have width : 2 ^ i ≤ 2 ^ 255 := Nat.pow_le_pow_right (by decide) (by omega)
      rw [val_N]
      omega
    exact Nat.ModEq.eq_of_lt_of_lt zero small (Nat.lt_of_le_of_lt (Nat.zero_le _) small)
  · intro safe i
    induction i with
    | zero =>
      intro _
      refine ⟨by show val zero < val N; decide, ?_⟩
      rw [pow_zero, Nat.mod_one, Nat.mul_zero]
      rfl
    | succ i before =>
      intro inside
      refine ⟨fnMulAfter_lt a b inside, ?_⟩
      refine (fnMulAfter_congr a b inside).trans ?_
      have here := (before (Nat.le_of_succ_le inside)).2
      rw [mod_two_pow_succ_eq, Nat.mul_add]
      refine here.add ?_
      split
      · rename_i set
        have exact_factor := factor_congr a i
        rw [safe i inside set, Nat.mul_zero, Nat.add_zero] at exact_factor
        rw [Nat.mul_one, Nat.mul_comm (val a)]
        exact exact_factor
      · rfl

/-- The factor stays below `2^255` in each doubling that a set bit of `b` stands above. -/
theorem fnMulExact_iff_factor (a b : U256) :
    FnMulExact a b ↔ ∀ l, 2 ^ (l + 1) ≤ val b → val (factor a l) < 2 ^ 255 := by
  rw [fnMulExact_iff_lost]
  constructor
  · intro safe l above
    have some_bit : val b / 2 ^ (l + 1) ≠ 0 :=
      Nat.ne_of_gt (Nat.div_pos above (Nat.two_pow_pos _))
    obtain ⟨k, set⟩ := Nat.exists_testBit_of_ne_zero some_bit
    rw [Nat.testBit_div_two_pow] at set
    have inside : k + (l + 1) < 256 := by
      by_contra outside
      have width : 2 ^ 256 ≤ 2 ^ (k + (l + 1)) :=
        Nat.pow_le_pow_right (by decide) (Nat.not_lt.mp outside)
      rw [Nat.testBit_lt_two_pow (Nat.lt_of_lt_of_le (val_lt b) width)] at set
      exact nomatch set
    exact (lost_eq_zero_iff a _).mp (safe _ inside set) l (by omega)
  · intro low i _ set
    refine (lost_eq_zero_iff a i).mpr fun l below => low l ?_
    have top := Nat.ge_two_pow_of_testBit set
    exact Nat.le_trans (Nat.pow_le_pow_right (by decide) below) top

/-- No doubling that matters overflows: `b` is zero or one, or `a` is below `2^255` and so is,
reduced, each double of `a` that a higher bit of `b` comes after. -/
def FactorFits (a b : U256) : Prop :=
  val b < 2 ∨ (val a < 2 ^ 255 ∧
    ∀ j, 2 ^ (j + 1) ≤ val b → 2 ^ j * val a % val N < 2 ^ 255)

/-- **When the product is right**: the result is below the order and congruent to the product,
and the loop keeps that invariant in every step, if and only if no doubling that matters
reaches `2^255`. -/
theorem fnMulExact_iff (a b : U256) :
    ((val (fnMul a b) < val N ∧ val (fnMul a b) ≡ val a * val b [MOD val N]) ∧ FnMulExact a b) ↔
      FactorFits a b := by
  have result : FnMulExact a b →
      val (fnMul a b) < val N ∧ val (fnMul a b) ≡ val a * val b [MOD val N] := by
    intro keeps
    have last := keeps 256 (Nat.le_refl 256)
    rw [Nat.mod_eq_of_lt (val_lt b), ← fnMul_eq] at last
    exact last
  rw [and_iff_right_of_imp result, fnMulExact_iff_factor]
  constructor
  · intro low
    by_cases small : val b < 2
    · exact Or.inl small
    refine Or.inr ⟨low 0 (Nat.not_lt.mp small), fun j above => ?_⟩
    match j with
    | 0 =>
      have first : val a < 2 ^ 255 := low 0 above
      rw [pow_zero, Nat.one_mul]
      exact Nat.lt_of_le_of_lt (Nat.mod_le _ _) first
    | m + 1 =>
      rw [← factor_eq fun l below => low l (Nat.le_trans
        (Nat.pow_le_pow_right (by decide) (by omega)) above)]
      exact low (m + 1) above
  · intro fits l
    rcases fits with small | ⟨first, reduced⟩
    · intro above
      have width : 2 ^ 1 ≤ 2 ^ (l + 1) := Nat.pow_le_pow_right (by decide) (by omega)
      omega
    · induction l using Nat.strong_induction_on with
      | _ l earlier =>
        intro above
        match l with
        | 0 => exact first
        | m + 1 =>
          rw [factor_eq fun k below => earlier k below (Nat.le_trans
            (Nat.pow_le_pow_right (by decide) (by omega)) above)]
          exact reduced (m + 1) above

set_option maxRecDepth 16000 in
/-- Twice the order less one is not what the loop computes. -/
theorem not_fnMulExact_double :
    ¬ ((val (fnMul (ofNat256 (val N - 1)) (small 2)) < val N ∧
      val (fnMul (ofNat256 (val N - 1)) (small 2)) ≡
        val (ofNat256 (val N - 1)) * val (small 2) [MOD val N]) ∧
          FnMulExact (ofNat256 (val N - 1)) (small 2)) := by
  rintro ⟨⟨_, congruent⟩, _⟩
  exact absurd congruent (by decide)

end RustyPenguin.Crypto.P256
