import Mathlib.FieldTheory.Finite.Basic
import RustyPenguin.Crypto.P256.Integers
import RustyPenguin.Foundation.Primality

/-!
# Residues modulo the field prime

Reduced limbs stand for the elements of the prime field (`residue`): `fpAdd` and `fpSub` are its
addition and subtraction. What is built from multiplications is taken here with the
multiplication as a parameter, exact modulo the prime (`ExactMul`): then `power` raises to the
exponent, and the power `p - 2` is the inverse.
-/

set_option autoImplicit false

namespace RustyPenguin.Crypto.P256

open Primality

/-! ## The prime -/

/-- Certificates of the field prime and of the primes below it. -/
def ladder : List Certificate :=
  [⟨val P, 6, [2, 3, 5, 5, 17, 257, 641, 1531, 65537, 490463, 6700417,
      835945042244614951780389953367877943453916927241]⟩,
   ⟨835945042244614951780389953367877943453916927241, 11,
    [2, 2, 2, 3, 3, 3, 5, 774023187263532362759620327192479577272145303]⟩,
   ⟨774023187263532362759620327192479577272145303, 3,
    [2, 3, 3, 2411, 34282281433, 11290956913871, 46076956964474543]⟩,
   ⟨46076956964474543, 5, [2, 23, 18169, 78283, 704251]⟩, ⟨704251, 2, [2, 3, 3, 5, 5, 5, 313]⟩,
   ⟨313, 10, [2, 2, 2, 3, 13]⟩, ⟨78283, 3, [2, 3, 3, 4349]⟩, ⟨4349, 2, [2, 2, 1087]⟩,
   ⟨1087, 3, [2, 3, 181]⟩, ⟨181, 2, [2, 2, 3, 3, 5]⟩, ⟨18169, 11, [2, 2, 2, 3, 757]⟩,
   ⟨757, 2, [2, 2, 3, 3, 3, 7]⟩, ⟨11290956913871, 13, [2, 5, 17, 66417393611]⟩,
   ⟨66417393611, 6, [2, 5, 53, 173, 197, 3677]⟩, ⟨3677, 2, [2, 2, 919]⟩,
   ⟨919, 7, [2, 3, 3, 3, 17]⟩, ⟨197, 2, [2, 2, 7, 7]⟩, ⟨173, 2, [2, 2, 43]⟩, ⟨43, 3, [2, 3, 7]⟩,
   ⟨34282281433, 17, [2, 2, 2, 3, 7, 204061199]⟩, ⟨204061199, 11, [2, 11, 23, 107, 3769]⟩,
   ⟨3769, 7, [2, 2, 2, 3, 157]⟩, ⟨157, 5, [2, 2, 3, 13]⟩, ⟨107, 2, [2, 53]⟩, ⟨23, 5, [2, 11]⟩,
   ⟨2411, 6, [2, 5, 241]⟩, ⟨241, 7, [2, 2, 2, 2, 3, 5]⟩,
   ⟨6700417, 5, [2, 2, 2, 2, 2, 2, 2, 3, 17449]⟩, ⟨17449, 14, [2, 2, 2, 3, 727]⟩,
   ⟨727, 5, [2, 3, 11, 11]⟩, ⟨490463, 14, [2, 7, 53, 661]⟩, ⟨661, 2, [2, 2, 3, 5, 11]⟩,
   ⟨11, 2, [2, 5]⟩, ⟨53, 2, [2, 2, 13]⟩, ⟨13, 2, [2, 2, 3]⟩, ⟨7, 3, [2, 3]⟩,
   ⟨65537, 3, [2, 2, 2, 2, 2, 2, 2, 2, 2, 2, 2, 2, 2, 2, 2, 2]⟩, ⟨1531, 2, [2, 3, 3, 5, 17]⟩,
   ⟨641, 3, [2, 2, 2, 2, 2, 2, 2, 5]⟩, ⟨257, 3, [2, 2, 2, 2, 2, 2, 2, 2]⟩, ⟨17, 3, [2, 2, 2, 2]⟩,
   ⟨5, 2, [2, 2]⟩, ⟨3, 2, [2]⟩, ⟨2, 3, []⟩]

theorem prime_P : (val P).Prime :=
  Climbs.prime (show Climbs ladder by decide +kernel) _ List.mem_cons_self

instance : Fact (val P).Prime := ⟨prime_P⟩

/-! ## Reduced limbs -/

/-- Limbs that hold a number below the prime. -/
def Reduced (a : U256) : Prop := val a < val P

instance (a : U256) : Decidable (Reduced a) := inferInstanceAs (Decidable (val a < val P))

/-- The element of the prime field that limbs stand for. -/
def residue (a : U256) : ZMod (val P) := (val a : ZMod (val P))

theorem residue_eq_zero_iff {a : U256} (reduced : Reduced a) : residue a = 0 ↔ isZero a = true := by
  rw [residue, ZMod.natCast_eq_zero_iff, isZero_iff]
  exact ⟨fun divides => Nat.eq_zero_of_dvd_of_lt divides reduced, fun zero => by simp [zero]⟩

/-- Reduced limbs that stand for an element. -/
def Stands (a : U256) (x : ZMod (val P)) : Prop := Reduced a ∧ residue a = x

theorem Stands.isZero_iff {a : U256} {x : ZMod (val P)} (stands : Stands a x) :
    isZero a = true ↔ x = 0 := by
  rw [← stands.2]
  exact (residue_eq_zero_iff stands.1).symm

theorem stands_small (x : UInt64) : Stands (small x) x.toNat := by
  have word := x.toNat_lt
  have prime : 2 ^ 64 < val P := by decide
  constructor
  · rw [Reduced, small, val_mk]
    simp only [UInt64.toNat_zero]
    omega
  · rw [residue, small, val_mk]
    simp

theorem stands_zero : Stands zero 0 := by
  simpa using show Stands zero (0 : UInt64).toNat from stands_small 0

theorem fpAdd_spec {a b : U256} (reducedA : Reduced a) (reducedB : Reduced b) :
    Reduced (fpAdd a b) ∧ residue (fpAdd a b) = residue a + residue b := by
  have prime : val P = 2 ^ 256 - 2 ^ 224 + 2 ^ 192 + 2 ^ 96 - 1 := by decide
  have sum := add256c_spec a b
  have small := val_lt (add256c a b).1
  have value : ∃ k, val (fpAdd a b) + k * val P = val a + val b ∧ val (fpAdd a b) < val P := by
    rw [Reduced] at reducedA reducedB
    rw [fpAdd]
    dsimp only
    rw [condSub_spec]
    cases carry : (add256c a b).2 with
    | false =>
      rw [carry, Bool.toNat_false] at sum
      rw [if_neg Bool.false_ne_true]
      rw [prime] at reducedA reducedB ⊢
      split
      · exact ⟨0, by omega, by omega⟩
      · exact ⟨1, by omega, by omega⟩
    | true =>
      have difference := sub256b_spec (add256c a b).1 P
      have small' := val_lt (sub256b (add256c a b).1 P).1
      rw [carry, Bool.toNat_true] at sum
      rw [sub256b_borrow] at difference
      rw [if_pos (rfl : true = true)]
      rw [prime] at reducedA reducedB difference ⊢
      rw [decide_eq_true (by omega), Bool.toNat_true] at difference
      rw [if_pos (by omega)]
      exact ⟨1, by omega, by omega⟩
  obtain ⟨k, multiple, below⟩ := value
  refine ⟨below, ?_⟩
  rw [residue, residue, residue, ← Nat.cast_add, ← multiple, Nat.cast_add, Nat.cast_mul,
    ZMod.natCast_self, mul_zero, add_zero]

theorem fpSub_spec {a b : U256} (reducedA : Reduced a) (reducedB : Reduced b) :
    Reduced (fpSub a b) ∧ residue (fpSub a b) = residue a - residue b := by
  have difference := sub256b_spec a b
  have sum := add256c_spec (sub256b a b).1 P
  have small := val_lt (sub256b a b).1
  have small' := val_lt (add256c (sub256b a b).1 P).1
  have bound := val_lt P
  have value : ∃ k, val (fpSub a b) + val b = val a + k * val P ∧ val (fpSub a b) < val P := by
    rw [Reduced] at reducedA reducedB
    rw [fpSub]
    dsimp only
    rw [sub256b_borrow] at difference ⊢
    by_cases less : val a < val b
    · rw [decide_eq_true less, Bool.toNat_true] at difference
      rw [decide_eq_true less, if_pos (rfl : true = true)]
      have carry : (add256c (sub256b a b).1 P).2 = true := by
        cases out : (add256c (sub256b a b).1 P).2 with
        | false =>
          rw [out, Bool.toNat_false] at sum
          omega
        | true => rfl
      rw [carry, Bool.toNat_true] at sum
      exact ⟨1, by omega, by omega⟩
    · rw [decide_eq_false less, Bool.toNat_false] at difference
      rw [decide_eq_false less, if_neg Bool.false_ne_true]
      exact ⟨0, by omega, by omega⟩
  obtain ⟨k, multiple, below⟩ := value
  refine ⟨below, eq_sub_of_add_eq ?_⟩
  rw [residue, residue, residue, ← Nat.cast_add, multiple, Nat.cast_add, Nat.cast_mul,
    ZMod.natCast_self, mul_zero, add_zero]

theorem Stands.add {a b : U256} {x y : ZMod (val P)} (left : Stands a x) (right : Stands b y) :
    Stands (fpAdd a b) (x + y) := by
  rw [← left.2, ← right.2]
  exact fpAdd_spec left.1 right.1

theorem Stands.sub {a b : U256} {x y : ZMod (val P)} (left : Stands a x) (right : Stands b y) :
    Stands (fpSub a b) (x - y) := by
  rw [← left.2, ← right.2]
  exact fpSub_spec left.1 right.1

/-! ## An exact multiplication -/

/-- A multiplication that is exact modulo the prime. -/
def ExactMul (mul : U256 → U256 → U256) : Prop :=
  ∀ a b, val a < val P → val b < val P →
    val (mul a b) < val P ∧ val (mul a b) ≡ val a * val b [MOD val P]

section Exact

variable {mul : U256 → U256 → U256} (exact : ExactMul mul)
include exact

theorem stands_mul {a b : U256} {x y : ZMod (val P)} (left : Stands a x) (right : Stands b y) :
    Stands (mul a b) (x * y) := by
  obtain ⟨below, congruent⟩ := exact a b left.1 right.1
  refine ⟨below, ?_⟩
  rw [← left.2, ← right.2, residue, residue, residue, ← Nat.cast_mul]
  exact (ZMod.natCast_eq_natCast_iff _ _ _).mpr congruent

/-- After `i` bits of the exponent the accumulator is the power by these bits, and the base has
been squared `i` times. -/
theorem power_run {a : U256} {x : ZMod (val P)} (stands : Stands a x) (e : U256) {i : Nat}
    (within : i ≤ 256) :
    let s := ((bitsLe e).take i).foldl
      (fun s bit => (if bit then mul s.1 s.2 else s.1, mul s.2 s.2)) (small 1, a)
    Stands s.1 (x ^ (val e % 2 ^ i)) ∧ Stands s.2 (x ^ 2 ^ i) := by
  induction i with
  | zero =>
    refine ⟨?_, ?_⟩
    · rw [pow_zero, Nat.mod_one, pow_zero, List.take_zero, List.foldl_nil, ← Nat.cast_one]
      exact stands_small 1
    · rw [pow_zero, pow_one]
      exact stands
  | succ i run =>
    obtain ⟨acc, base⟩ := run (by omega)
    rw [take_succ_bitsLe e within, List.foldl_append, List.foldl_cons, List.foldl_nil]
    generalize ((bitsLe e).take i).foldl
      (fun s bit => (if bit then mul s.1 s.2 else s.1, mul s.2 s.2)) (small 1, a) = s at *
    refine ⟨?_, ?_⟩
    · rw [Nat.mod_pow_succ, ← Nat.toNat_testBit]
      cases bit : (val e).testBit i with
      | false =>
        rw [Bool.toNat_false, Nat.mul_zero, Nat.add_zero]
        exact acc
      | true =>
        rw [Bool.toNat_true, Nat.mul_one, pow_add]
        exact stands_mul exact acc base
    · rw [pow_succ, mul_two, pow_add]
      exact stands_mul exact base base

/-- Square-and-multiply raises to the exponent. -/
theorem power_spec {a : U256} {x : ZMod (val P)} (stands : Stands a x) (e : U256) :
    Stands (power mul e a) (x ^ val e) := by
  have run := (power_run exact stands e (le_refl 256)).1
  rwa [List.take_of_length_le (le_of_eq (length_bitsLe e)), Nat.mod_eq_of_lt (val_lt e)] at run

/-- The power `p - 2` is the inverse. -/
theorem inverse_spec {a : U256} {x : ZMod (val P)} (stands : Stands a x) (nonzero : x ≠ 0) :
    Stands (power mul
      #v[0xFFFFFFFFFFFFFFFD, 0x00000000FFFFFFFF, 0x0000000000000000, 0xFFFFFFFF00000001] a)
        x⁻¹ := by
  have value := power_spec exact stands
    #v[0xFFFFFFFFFFFFFFFD, 0x00000000FFFFFFFF, 0x0000000000000000, 0xFFFFFFFF00000001]
  have fermat : x ^ (val P - 2 + 1) = 1 := ZMod.pow_card_sub_one_eq_one nonzero
  rw [pow_succ] at fermat
  rwa [← eq_inv_of_mul_eq_one_left fermat]

end Exact

end RustyPenguin.Crypto.P256
