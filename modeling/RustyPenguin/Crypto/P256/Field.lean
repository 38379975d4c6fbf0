import Mathlib.Data.Int.ModEq
import Mathlib.RingTheory.Coprime.Lemmas
import Mathlib.Tactic.NormNum
import RustyPenguin.Crypto.P256.Integers
import RustyPenguin.Foundation.Weights

/-!
# Multiplication modulo the field prime

`fpMul` forms the full product and reduces it by signed sums of its 32-bit words. The product
is exact (`mul512_spec`), and two passes of carries and four subtractions leave the signed sums
modulo `2^256`, reduced modulo the prime (`reduceP256_spec`): what the ninth accumulator holds
is dropped. The sums themselves are off by a multiple of the prime from the product only if the
words from the twelfth on are zero, because the row of these words is added one word too high
(`weigh_accumulate`).

Neither error can make up for the other (`dropped_iff`), so `fpMulExact_iff` says exactly
when a product is right.
-/

set_option autoImplicit false

namespace RustyPenguin.Crypto.P256

open Weights Positions

/-! ## The product -/

/-- The limbs of a product, as integers. -/
def limbs (r : Vector UInt64 8) (k : Fin 8) : ℤ := (getElem r k (fin8 k)).toNat

theorem limbs_set (r : Vector UInt64 8) (i : Fin 8) (x : UInt64) :
    limbs (r.set i.val x i.isLt) = Function.update (limbs r) i x.toNat := by
  funext k
  rw [limbs, Function.update_apply]
  split
  · rename_i same
    subst same
    simp
  · rename_i other
    have apart : i.val ≠ k.val := fun same => other (Fin.ext same.symm)
    simp [limbs, Vector.getElem_set_ne, apart]

/-- The carries of a row of products, limb by limb. -/
theorem row_carries {a b0 b1 b2 b3 r0 r1 r2 r3 p0 p1 p2 p3 : Nat} (e0 : a * b0 + r0 = p0)
    (e1 : a * b1 + r1 + p0 / 2 ^ 64 = p1) (e2 : a * b2 + r2 + p1 / 2 ^ 64 = p2)
    (e3 : a * b3 + r3 + p2 / 2 ^ 64 = p3) :
    p0 % 2 ^ 64 + 2 ^ 64 * (p1 % 2 ^ 64) + 2 ^ 128 * (p2 % 2 ^ 64) + 2 ^ 192 * (p3 % 2 ^ 64) +
        2 ^ 256 * (p3 / 2 ^ 64) =
      r0 + 2 ^ 64 * r1 + 2 ^ 128 * r2 + 2 ^ 192 * r3 +
        a * (b0 + 2 ^ 64 * b1 + 2 ^ 128 * b2 + 2 ^ 192 * b3) := by
  have distribute : a * (b0 + 2 ^ 64 * b1 + 2 ^ 128 * b2 + 2 ^ 192 * b3) =
      a * b0 + 2 ^ 64 * (a * b1) + 2 ^ 128 * (a * b2) + 2 ^ 192 * (a * b3) := by
    rw [Nat.mul_add, Nat.mul_add, Nat.mul_add, Nat.mul_left_comm a, Nat.mul_left_comm a,
      Nat.mul_left_comm a]
  rw [distribute]
  generalize a * b0 = q0 at *
  generalize a * b1 = q1 at *
  generalize a * b2 = q2 at *
  generalize a * b3 = q3 at *
  omega

theorem row0 (i : Fin 4) : i.val < 8 := by omega
theorem row1 (i : Fin 4) : i.val + 1 < 8 := by omega
theorem row2 (i : Fin 4) : i.val + 2 < 8 := by omega
theorem row3 (i : Fin 4) : i.val + 3 < 8 := by omega
theorem row4 (i : Fin 4) : i.val + 4 < 8 := by omega

theorem weigh_overwrite (r : Vector UInt64 8) (i : Fin 4) (x0 x1 x2 x3 x4 : UInt64) :
    weigh (2 ^ 64) (limbs (overwrite r i x0 x1 x2 x3 x4)) = weigh (2 ^ 64) (limbs r) +
      ((x0.toNat - (getElem r i.val (row0 i)).toNat) +
        2 ^ 64 * (x1.toNat - (getElem r (i.val + 1) (row1 i)).toNat) +
        2 ^ 128 * (x2.toNat - (getElem r (i.val + 2) (row2 i)).toNat) +
        2 ^ 192 * (x3.toNat - (getElem r (i.val + 3) (row3 i)).toNat) +
        2 ^ 256 * (x4.toNat - (getElem r (i.val + 4) (row4 i)).toNat)) * (2 ^ 64) ^ i.val := by
  have at0 : limbs r ⟨i.val, by omega⟩ = (r[i.val].toNat : ℤ) := rfl
  have at1 : limbs r ⟨i.val + 1, by omega⟩ = (r[i.val + 1].toNat : ℤ) := rfl
  have at2 : limbs r ⟨i.val + 2, by omega⟩ = (r[i.val + 2].toNat : ℤ) := rfl
  have at3 : limbs r ⟨i.val + 3, by omega⟩ = (r[i.val + 3].toNat : ℤ) := rfl
  have at4 : limbs r ⟨i.val + 4, by omega⟩ = (r[i.val + 4].toNat : ℤ) := rfl
  rw [overwrite, limbs_set _ ⟨i.val + 4, by omega⟩, limbs_set _ ⟨i.val + 3, by omega⟩,
    limbs_set _ ⟨i.val + 2, by omega⟩, limbs_set _ ⟨i.val + 1, by omega⟩,
    limbs_set _ ⟨i.val, by omega⟩]
  rw [weigh_update, weigh_update, weigh_update, weigh_update, weigh_update]
  simp (disch := simp) only [Function.update_of_ne, at0, at1, at2, at3, at4, pow_add, pow_one]
  ring

theorem getElem_overwrite (r : Vector UInt64 8) (i : Fin 4) (x0 x1 x2 x3 x4 : UInt64) {k : Nat}
    (inside : k < 8) (above : i.val + 4 < k) : (overwrite r i x0 x1 x2 x3 x4)[k] = r[k] := by
  rw [overwrite, Vector.getElem_set_ne _ _ (by omega), Vector.getElem_set_ne _ _ (by omega),
    Vector.getElem_set_ne _ _ (by omega), Vector.getElem_set_ne _ _ (by omega),
    Vector.getElem_set_ne _ _ (by omega)]

/-- The carry out of a product is a word. -/
theorem row_carry {a b r c p : Nat} (word : a < 2 ^ 64) (digit : b < 2 ^ 64) (old : r < 2 ^ 64)
    (carry : c < 2 ^ 64) (sum : a * b + r + c = p) : p / 2 ^ 64 < 2 ^ 64 := by
  have product : a * b ≤ (2 ^ 64 - 1) * (2 ^ 64 - 1) :=
    Nat.mul_le_mul (Nat.le_sub_one_of_lt word) (Nat.le_sub_one_of_lt digit)
  refine Nat.div_lt_of_lt_mul ?_
  generalize a * b = q at *
  omega

/-- A row adds its product at its limb, as long as nothing stands where its carry goes. -/
theorem mulRow_spec (a : UInt64) (b : U256) (r : Vector UInt64 8) (i : Fin 4)
    (free : getElem r (i.val + 4) (row4 i) = 0) :
    weigh (2 ^ 64) (limbs (mulRow a b r i)) =
        weigh (2 ^ 64) (limbs r) + a.toNat * val b * (2 ^ 64) ^ i.val ∧
      ∀ k (inside : k < 8), i.val + 4 < k → (mulRow a b r i)[k] = r[k] := by
  have word := a.toNat_lt
  have zero : 0 < 2 ^ 64 := by decide
  generalize e0 : a.toNat * b[0].toNat + r[i.val].toNat = p0
  generalize e1 : a.toNat * b[1].toNat + r[i.val + 1].toNat + p0 / 2 ^ 64 = p1
  generalize e2 : a.toNat * b[2].toNat + r[i.val + 2].toNat + p1 / 2 ^ 64 = p2
  generalize e3 : a.toNat * b[3].toNat + r[i.val + 3].toNat + p2 / 2 ^ 64 = p3
  have carries := row_carries e0 e1 e2 e3
  have carry0 := row_carry word b[0].toNat_lt r[i.val].toNat_lt zero e0
  have carry1 := row_carry word b[1].toNat_lt r[i.val + 1].toNat_lt carry0 e1
  have carry2 := row_carry word b[2].toNat_lt r[i.val + 2].toNat_lt carry1 e2
  have top := row_carry word b[3].toNat_lt r[i.val + 3].toNat_lt carry2 e3
  have runs : mulRow a b r i = overwrite r i (UInt64.ofNat p0) (UInt64.ofNat p1) (UInt64.ofNat p2)
      (UInt64.ofNat p3) (UInt64.ofNat (p3 / 2 ^ 64)) := by
    rw [mulRow, overwrite]
    simp only [Nat.shiftRight_eq_div_pow]
    rw [e0, e1, e2, e3]
  rw [runs]
  refine ⟨?_, fun k inside above => getElem_overwrite r i _ _ _ _ _ inside above⟩
  have exact := congrArg (fun x : Nat => (x : ℤ) * (2 ^ 64) ^ i.val) carries
  rw [weigh_overwrite, free, val]
  simp only [UInt64.toNat_ofNat', Nat.mod_eq_of_lt top, UInt64.toNat_zero]
  push_cast at exact ⊢
  linear_combination exact

/-- The schoolbook product holds the product. -/
theorem mul512_spec (a b : U256) :
    weigh (2 ^ 64) (limbs (mul512 a b)) = val a * val b := by
  have rows : mul512 a b =
      mulRow a[3] b (mulRow a[2] b (mulRow a[1] b (mulRow a[0] b (Vector.replicate 8 0) 0) 1) 2)
        3 := rfl
  obtain ⟨sum0, rest0⟩ := mulRow_spec a[0] b (Vector.replicate 8 0) 0 rfl
  generalize mulRow a[0] b (Vector.replicate 8 0) 0 = r0 at *
  obtain ⟨sum1, rest1⟩ := mulRow_spec a[1] b r0 1 (rest0 5 (by decide) (by decide))
  generalize mulRow a[1] b r0 1 = r1 at *
  obtain ⟨sum2, rest2⟩ := mulRow_spec a[2] b r1 2
    ((rest1 6 (by decide) (by decide)).trans (rest0 6 (by decide) (by decide)))
  generalize mulRow a[2] b r1 2 = r2 at *
  obtain ⟨sum3, rest3⟩ := mulRow_spec a[3] b r2 3
    ((rest2 7 (by decide) (by decide)).trans
      ((rest1 7 (by decide) (by decide)).trans (rest0 7 (by decide) (by decide))))
  have start : weigh (2 ^ 64) (limbs (Vector.replicate 8 0)) = 0 := by
    have zero : limbs (Vector.replicate 8 0) = fun _ => 0 := by
      funext k
      simp [limbs]
    rw [zero, weigh_zero]
  have value : (val a : ℤ) =
      a[0].toNat * (2 ^ 64) ^ (0 : Fin 4).val + a[1].toNat * (2 ^ 64) ^ (1 : Fin 4).val +
        a[2].toNat * (2 ^ 64) ^ (2 : Fin 4).val + a[3].toNat * (2 ^ 64) ^ (3 : Fin 4).val := by
    simp only [val, Fin.isValue, Fin.coe_ofNat_eq_mod]
    push_cast
    ring
  rw [rows, sum3, sum2, sum1, sum0, start, value]
  ring

/-! ## The signed sums -/

/-- The words of a product, as integers. -/
def digits (w : Vector Int 16) (k : Fin 16) : ℤ := getElem w k (fin16 k)

theorem words_split (r : Vector UInt64 8) (j : Fin 8) :
    limbs r j = (words r)[2 * j.val] + 2 ^ 32 * (words r)[2 * j.val + 1] := by
  have word := r[j.val].toNat_lt
  have first : 2 * j.val / 2 = j.val := by omega
  have second : (2 * j.val + 1) / 2 = j.val := by omega
  have even : 2 * j.val % 2 = 0 := by omega
  have odd : (2 * j.val + 1) % 2 = 1 := by omega
  simp only [words, limbs, Fin.getElem_fin, Vector.getElem_ofFn, first, second, even, odd,
    Nat.shiftRight_eq_div_pow]
  omega

theorem words_reduced (r : Vector UInt64 8) (k : Fin 16) :
    0 ≤ digits (words r) k ∧ digits (words r) k < 2 ^ 32 := by
  simp only [digits, words, Fin.getElem_fin, Vector.getElem_ofFn]
  omega

/-- The words of a product hold the product. -/
theorem words_spec (r : Vector UInt64 8) :
    weigh (2 ^ 32) (digits (words r)) = weigh (2 ^ 64) (limbs r) := by
  rw [weigh_pairs (n := 8), ← pow_mul]
  exact congrArg (weigh (2 ^ 64)) (funext fun j => (words_split r j).symm)

/-- The accumulators of the reduction. -/
def accumulators (acc : Vector Int 9) (k : Fin 9) : ℤ := getElem acc k (fin9 k)

theorem carryPass_eq (acc : Vector Int 9) :
    accumulators (carryPass acc) = carryAll (2 ^ 32) (accumulators acc) := by
  have set : ∀ (acc : Vector Int 9) (i : Fin 9) (x : ℤ),
      accumulators (acc.set i.val x i.isLt) = Function.update (accumulators acc) i x := by
    intro acc i x
    funext k
    rw [accumulators, Function.update_apply]
    split
    · rename_i same
      subst same
      simp
    · rename_i other
      have apart : i.val ≠ k.val := fun same => other (Fin.ext same.symm)
      simp [accumulators, Vector.getElem_set_ne, apart]
  rw [carryPass, carryAll]
  refine (List.foldl_hom accumulators fun acc i => ?_).symm
  rw [set _ ⟨i.val, by omega⟩, set _ ⟨i.val + 1, by omega⟩]
  rfl

/-- Two reduced words in one limb. -/
theorem packed_limb {low high : ℤ} (lowReduced : 0 ≤ low ∧ low < 2 ^ 32)
    (highReduced : 0 ≤ high ∧ high < 2 ^ 32) :
    ((UInt64.ofInt low ||| UInt64.ofInt high <<< 32).toNat : ℤ) = low + 2 ^ 32 * high := by
  have lowWord := toNat_ofInt low
  have highWord := toNat_ofInt high
  rw [Int.emod_eq_of_lt lowReduced.1 (by omega)] at lowWord
  rw [Int.emod_eq_of_lt highReduced.1 (by omega)] at highWord
  generalize UInt64.ofInt low = x at *
  generalize UInt64.ofInt high = y at *
  have shifted : (y <<< 32).toNat = y.toNat <<< 32 := by
    rw [UInt64.toNat_shiftLeft, show (32 : UInt64).toNat % 64 = 32 from rfl, Nat.shiftLeft_eq]
    exact Nat.mod_eq_of_lt (by omega)
  rw [UInt64.toNat_or, shifted, Nat.or_comm, ← Nat.shiftLeft_add_eq_or_of_lt (by omega),
    Nat.shiftLeft_eq]
  omega

theorem even9 (i : Fin 4) : 2 * i.val < 9 := by omega
theorem odd9 (i : Fin 4) : 2 * i.val + 1 < 9 := by omega

/-- The limbs that two accumulators each are packed into. -/
theorem val_packed {acc : Vector Int 9} (reduced : ∀ k : Fin 8,
    0 ≤ accumulators acc k.castSucc ∧ accumulators acc k.castSucc < 2 ^ 32) :
    (val (Vector.ofFn fun i => UInt64.ofInt (getElem acc (2 * i.val) (even9 i)) |||
        UInt64.ofInt (getElem acc (2 * i.val + 1) (odd9 i)) <<< 32) : ℤ) =
      weigh (2 ^ 32) fun k : Fin 8 => accumulators acc k.castSucc := by
  have digits : ∀ (k : Nat) (inside : k < 8), 0 ≤ acc[k] ∧ acc[k] < 2 ^ 32 :=
    fun k inside => reduced ⟨k, inside⟩
  have limb0 := packed_limb (digits 0 (by decide)) (digits 1 (by decide))
  have limb1 := packed_limb (digits 2 (by decide)) (digits 3 (by decide))
  have limb2 := packed_limb (digits 4 (by decide)) (digits 5 (by decide))
  have limb3 := packed_limb (digits 6 (by decide)) (digits 7 (by decide))
  rw [weigh_pairs (n := 4), weigh, Fin.sum_univ_four, val]
  simp only [Vector.getElem_ofFn]
  push_cast [limb0, limb1, limb2, limb3]
  show _ = (acc[0] + 4294967296 * acc[1]) * 18446744073709551616 ^ 0 +
    (acc[2] + 4294967296 * acc[3]) * 18446744073709551616 ^ 1 +
    (acc[4] + 4294967296 * acc[5]) * 18446744073709551616 ^ 2 +
    (acc[6] + 4294967296 * acc[7]) * 18446744073709551616 ^ 3
  ring

theorem val_P : (val P : ℤ) = 2 ^ 256 - 2 ^ 224 + 2 ^ 192 + 2 ^ 96 - 1 := by decide

/-- Subtracting the prime four times reduces what four limbs hold. -/
theorem val_condSubs (r : U256) :
    val ((List.range 4).foldl (fun r _ => condSub r P) r) = val r % val P := by
  have prime := val_P
  have once : ∀ x : U256, val (condSub x P) = val x % val P := by
    intro x
    have small := val_lt x
    rw [condSub_spec]
    split
    · rw [Nat.mod_eq_of_lt (by assumption)]
    · rw [Nat.mod_eq_sub_mod (by omega), Nat.mod_eq_of_lt (by omega)]
  have rounds : List.range 4 = [0, 1, 2, 3] := rfl
  rw [rounds, List.foldl_cons, List.foldl_cons, List.foldl_cons, List.foldl_cons, List.foldl_nil,
    once, once, once, once, Nat.mod_mod, Nat.mod_mod, Nat.mod_mod]

/-- The reduction keeps the signed sums modulo `2^256`, and then reduces modulo the prime. -/
theorem reduceP256_spec (r : Vector UInt64 8) :
    (val (reduceP256 r) : ℤ) =
      weigh (2 ^ 32) (accumulators (accumulate (words r))) % 2 ^ 256 % val P := by
  have base : (0 : ℤ) < 2 ^ 32 := by decide
  rw [reduceP256]
  generalize accumulate (words r) = sums
  have first := carryAll_reduced base (accumulators sums)
  have second : accumulators (carryPass (carryPass sums)) =
      carryAll (2 ^ 32) (accumulators sums) := by
    rw [carryPass_eq, carryPass_eq, carryAll_of_reduced first]
  generalize carryPass (carryPass sums) = acc at *
  rw [← second] at first
  have total : weigh (2 ^ 32) (accumulators acc) = weigh (2 ^ 32) (accumulators sums) := by
    rw [second, weigh_carryAll base]
  rw [val_condSubs, Int.natCast_mod, val_packed first, weigh_low first, total]
  rfl

/-- The signed sums, word by word. -/
theorem weigh_accumulate (w : Vector Int 16) :
    weigh (2 ^ 32) (accumulators (accumulate w)) =
      weigh (2 ^ 32) (digits w) +
        2 * (2 ^ 32 - 1) * 2 ^ 96 *
          (digits w 12 + 2 ^ 32 * digits w 13 + 2 ^ 64 * digits w 14 + 2 ^ 96 * digits w 15) -
        val P * (1 * digits w 8 + 4294967297 * digits w 9 + 18446744078004518912 * digits w 10 +
          79228162532711081667253501951 * digits w 11 +
          340282367000166625977638945021017194495 * digits w 12 +
          1461501637671185285124623296161210883009696235519 * digits w 13 +
          6277101736848182401166692341332123086285927382448418586623 * digits w 14 +
          26959946673427741530053695850515137729844644212646842236464328081408 * digits w 15) := by
  rw [val_P]
  simp [weigh, Fin.sum_univ_succ, accumulators, digits, accumulate]
  ring

/-! ## Exactness -/

/-- What the signed sums make of a number: its low 256 bits, and the next four words in the
places that the form of the prime gives them. -/
def folded (c : Nat) : ℤ :=
  c % 2 ^ 256 + c / 2 ^ 256 % 2 ^ 32 * (2 ^ 224 - 2 ^ 192 - 2 ^ 96 + 1) +
    c / 2 ^ 256 / 2 ^ 32 % 2 ^ 32 * (2 ^ 32 + 1 - 2 ^ 192 - 2 ^ 128 - 2 ^ 96) +
    c / 2 ^ 256 / 2 ^ 64 % 2 ^ 32 * (2 ^ 64 + 2 ^ 32 - 2 ^ 224 - 2 ^ 160 - 2 ^ 128) +
    c / 2 ^ 256 / 2 ^ 96 % 2 ^ 32 * (2 * 2 ^ 96 + 2 ^ 64 - 1 - 2 ^ 224 - 2 ^ 160)

/-- Four reduced words are those of the number they hold. -/
theorem four_words {x y z t : ℤ} (x0 : 0 ≤ x ∧ x < 2 ^ 32) (y0 : 0 ≤ y ∧ y < 2 ^ 32)
    (z0 : 0 ≤ z ∧ z < 2 ^ 32) (t0 : 0 ≤ t ∧ t < 2 ^ 32) :
    (x + 2 ^ 32 * y + 2 ^ 64 * z + 2 ^ 96 * t) % 2 ^ 32 = x ∧
      (x + 2 ^ 32 * y + 2 ^ 64 * z + 2 ^ 96 * t) / 2 ^ 32 % 2 ^ 32 = y ∧
      (x + 2 ^ 32 * y + 2 ^ 64 * z + 2 ^ 96 * t) / 2 ^ 64 % 2 ^ 32 = z ∧
      (x + 2 ^ 32 * y + 2 ^ 64 * z + 2 ^ 96 * t) / 2 ^ 96 % 2 ^ 32 = t := by
  exact ⟨by omega, by omega, by omega, by omega⟩

theorem four_words_bounds {x y z t : ℤ} (x0 : 0 ≤ x ∧ x < 2 ^ 32) (y0 : 0 ≤ y ∧ y < 2 ^ 32)
    (z0 : 0 ≤ z ∧ z < 2 ^ 32) (t0 : 0 ≤ t ∧ t < 2 ^ 32) :
    0 ≤ x + 2 ^ 32 * y + 2 ^ 64 * z + 2 ^ 96 * t ∧
      x + 2 ^ 32 * y + 2 ^ 64 * z + 2 ^ 96 * t < 2 ^ 128 := by
  exact ⟨by omega, by omega⟩

theorem upper_words {high middle upper : ℤ} (split : high = middle + 2 ^ 128 * upper)
    (least : 0 ≤ middle) (most : middle < 2 ^ 128) (noNegative : 0 ≤ upper) :
    high < 2 ^ 128 ↔ upper = 0 := by
  omega

/-- The words of a product: the low eight as one number, and the upper eight. -/
theorem words_of_product (a b : U256) : ∃ low : ℤ, 0 ≤ low ∧ low < 2 ^ 256 ∧
    (val a * val b : ℕ) = low +
      2 ^ 256 * (digits (words (mul512 a b)) 8 + 2 ^ 32 * digits (words (mul512 a b)) 9 +
        2 ^ 64 * digits (words (mul512 a b)) 10 + 2 ^ 96 * digits (words (mul512 a b)) 11 +
        2 ^ 128 * (digits (words (mul512 a b)) 12 + 2 ^ 32 * digits (words (mul512 a b)) 13 +
          2 ^ 64 * digits (words (mul512 a b)) 14 + 2 ^ 96 * digits (words (mul512 a b)) 15)) := by
  have total := words_spec (mul512 a b)
  have reduced := words_reduced (mul512 a b)
  rw [mul512_spec] at total
  generalize words (mul512 a b) = w at *
  obtain ⟨least, most⟩ := weigh_bounds (f := fun k : Fin 8 => digits w ⟨k.val, by omega⟩)
    fun k => reduced ⟨k.val, by omega⟩
  refine ⟨_, least, by rwa [← pow_mul] at most, ?_⟩
  push_cast
  rw [← total]
  simp [weigh, Fin.sum_univ_succ]
  ring

theorem zero_or_one {k : ℤ} (least : 0 ≤ k) (most : k < 2) : k = 0 ∨ k = 1 := by omega

/-- The signed sums are congruent to `c` modulo the prime after the carry of their top limb is
dropped, just when neither the misplaced words nor that carry are there. -/
theorem dropped_iff {c u q sums : ℤ}
    (sum : sums = c + 2 * (2 ^ 32 - 1) * 2 ^ 96 * u -
      (2 ^ 256 - 2 ^ 224 + 2 ^ 192 + 2 ^ 96 - 1) * q)
    (misplaced : 0 ≤ u ∧ u < 2 ^ 128) (least : -(2 ^ 4 * 2 ^ 256) ≤ sums)
    (most : sums < 2 ^ 4 * 2 ^ 256) :
    sums % 2 ^ 256 ≡ c [ZMOD 2 ^ 256 - 2 ^ 224 + 2 ^ 192 + 2 ^ 96 - 1] ↔
      u = 0 ∧ 0 ≤ sums ∧ sums < 2 ^ 256 := by
  constructor
  · intro congruent
    obtain ⟨m, multiple⟩ := congruent.dvd
    obtain ⟨atLeast, below⟩ := misplaced
    have division := Int.emod_add_mul_ediv sums (2 ^ 256)
    have small := Int.emod_nonneg sums (by decide : (2 : ℤ) ^ 256 ≠ 0)
    have large := Int.emod_lt_of_pos sums (by decide : (0 : ℤ) < 2 ^ 256)
    generalize sums % 2 ^ 256 = rest at *
    generalize sums / 2 ^ 256 = k at *
    have balance : 2 ^ 97 * ((2 ^ 32 - 1) * u - 2 ^ 159 * k) =
        (2 ^ 256 - 2 ^ 224 + 2 ^ 192 + 2 ^ 96 - 1) * (q - m) := by
      linear_combination -1 * sum - division - multiple
    have odd : IsCoprime (2 ^ 256 - 2 ^ 224 + 2 ^ 192 + 2 ^ 96 - 1 : ℤ) (2 ^ 97) :=
      Int.isCoprime_iff_gcd_eq_one.mpr (by decide)
    obtain ⟨t, quotient⟩ := odd.dvd_of_dvd_mul_left ⟨q - m, balance⟩
    clear balance odd multiple sum congruent
    have above : -(2 ^ 5) < k := by linarith only [division, large, least]
    have under : k < 2 ^ 5 := by linarith only [division, small, most]
    have tooSmall : -1 < t := by linarith only [quotient, above, under, atLeast, below]
    have tooLarge : t < 1 := by linarith only [quotient, above, under, atLeast, below]
    obtain rfl : t = 0 := le_antisymm (Int.le_of_lt_add_one tooLarge) tooSmall
    rw [mul_zero, sub_eq_zero] at quotient
    have carry : 0 ≤ k := by linarith only [quotient, atLeast, below]
    have carries : k < 2 := by linarith only [quotient, atLeast, below]
    obtain rfl | rfl := zero_or_one carry carries
    · refine ⟨?_, ?_, ?_⟩
      · linarith only [quotient]
      · linarith only [division, small]
      · linarith only [division, large]
    · exact absurd ⟨u, quotient.symm⟩ (by decide : ¬ (2 ^ 32 - 1 : ℤ) ∣ 2 ^ 159 * 1)
  · rintro ⟨none, low, high⟩
    rw [Int.emod_eq_of_lt low high, sum, none, mul_zero, add_zero]
    exact (Int.modEq_iff_dvd.mpr ⟨q, by ring⟩)

/-- **When a product is right**: the result is below the prime and congruent to the product, if
and only if the product's upper half is below `2^128` and its signed sums neither carry out
of nor borrow into the top limb. -/
theorem fpMulExact_iff (a b : U256) :
    (val (fpMul a b) < val P ∧ val (fpMul a b) ≡ val a * val b [MOD val P]) ↔
      val a * val b / 2 ^ 256 < 2 ^ 128 ∧ 0 ≤ folded (val a * val b) ∧
        folded (val a * val b) < 2 ^ 256 := by
  have result := reduceP256_spec (mul512 a b)
  rw [weigh_accumulate, words_spec, mul512_spec, ← Nat.cast_mul] at result
  obtain ⟨low, least, most, product⟩ := words_of_product a b
  have reduced := words_reduced (mul512 a b)
  have w8 := reduced 8
  have w9 := reduced 9
  have w10 := reduced 10
  have w11 := reduced 11
  have w12 := reduced 12
  have w13 := reduced 13
  have w14 := reduced 14
  have w15 := reduced 15
  clear reduced
  rw [show fpMul a b = reduceP256 (mul512 a b) from rfl]
  generalize val (reduceP256 (mul512 a b)) = r at *
  generalize val a * val b = c at *
  generalize digits (words (mul512 a b)) 8 = x8 at *
  generalize digits (words (mul512 a b)) 9 = x9 at *
  generalize digits (words (mul512 a b)) 10 = x10 at *
  generalize digits (words (mul512 a b)) 11 = x11 at *
  generalize digits (words (mul512 a b)) 12 = x12 at *
  generalize digits (words (mul512 a b)) 13 = x13 at *
  generalize digits (words (mul512 a b)) 14 = x14 at *
  generalize digits (words (mul512 a b)) 15 = x15 at *
  rw [val_P] at result
  generalize total : (c : ℤ) + 2 * (2 ^ 32 - 1) * 2 ^ 96 * (x12 + 2 ^ 32 * x13 + 2 ^ 64 * x14 +
    2 ^ 96 * x15) - _ = sums at result
  have below : r < val P := by
    have small := Int.emod_lt_of_pos (sums % 2 ^ 256)
      (by decide : (0 : ℤ) < 2 ^ 256 - 2 ^ 224 + 2 ^ 192 + 2 ^ 96 - 1)
    rw [← result, ← val_P] at small
    exact Int.ofNat_lt.mp small
  have bounds : -(2 ^ 4 * 2 ^ 256) ≤ sums ∧ sums < 2 ^ 4 * 2 ^ 256 := by omega
  have misplaced : 0 ≤ x12 + 2 ^ 32 * x13 + 2 ^ 64 * x14 + 2 ^ 96 * x15 ∧
      x12 + 2 ^ 32 * x13 + 2 ^ 64 * x14 + 2 ^ 96 * x15 < 2 ^ 128 := four_words_bounds w12 w13 w14 w15
  have middle : 0 ≤ x8 + 2 ^ 32 * x9 + 2 ^ 64 * x10 + 2 ^ 96 * x11 ∧
      x8 + 2 ^ 32 * x9 + 2 ^ 64 * x10 + 2 ^ 96 * x11 < 2 ^ 128 := four_words_bounds w8 w9 w10 w11
  have high : (c : ℤ) / 2 ^ 256 = x8 + 2 ^ 32 * x9 + 2 ^ 64 * x10 + 2 ^ 96 * x11 +
      2 ^ 128 * (x12 + 2 ^ 32 * x13 + 2 ^ 64 * x14 + 2 ^ 96 * x15) := by
    rw [product, Int.add_mul_ediv_left _ _ (by decide), Int.ediv_eq_zero_of_lt least most, zero_add]
  have upper : (c / 2 ^ 256 < 2 ^ 128) ↔
      x12 + 2 ^ 32 * x13 + 2 ^ 64 * x14 + 2 ^ 96 * x15 = 0 := by
    rw [← upper_words high middle.1 middle.2 misplaced.1]
    norm_cast
  have direct : x12 + 2 ^ 32 * x13 + 2 ^ 64 * x14 + 2 ^ 96 * x15 = 0 → sums = folded c := by
    intro none
    have low256 : (c : ℤ) % 2 ^ 256 = low := by
      rw [product, Int.add_mul_emod_self_left, Int.emod_eq_of_lt least most]
    obtain ⟨word8, word9, word10, word11⟩ := four_words w8 w9 w10 w11
    obtain ⟨none12, none13, none14, none15⟩ : x12 = 0 ∧ x13 = 0 ∧ x14 = 0 ∧ x15 = 0 := by
      have words := four_words w12 w13 w14 w15
      rw [none] at words
      exact ⟨words.1.symm, words.2.1.symm, words.2.2.1.symm, words.2.2.2.symm⟩
    rw [none, mul_zero, add_zero] at high
    rw [folded, low256, high, word8, word9, word10, word11, ← total, product, none12, none13, none14,
      none15]
    ring
  have exact := dropped_iff total.symm misplaced bounds.1 bounds.2
  have residue : sums % 2 ^ 256 % (2 ^ 256 - 2 ^ 224 + 2 ^ 192 + 2 ^ 96 - 1) ≡ sums % 2 ^ 256
      [ZMOD 2 ^ 256 - 2 ^ 224 + 2 ^ 192 + 2 ^ 96 - 1] := Int.mod_modEq _ _
  rw [and_iff_right below, ← Int.natCast_modEq_iff, result, val_P]
  refine Iff.trans ⟨residue.symm.trans, residue.trans⟩ (exact.trans ?_)
  rw [upper]
  exact and_congr_right fun none => by rw [direct none]

set_option maxRecDepth 16000 in
/-- The square of the prime's predecessor is not what the reduction computes. -/
theorem not_fpMulExact_square :
    ¬ (val (fpMul (ofNat256 (val P - 1)) (ofNat256 (val P - 1))) < val P ∧
      val (fpMul (ofNat256 (val P - 1)) (ofNat256 (val P - 1))) ≡
        val (ofNat256 (val P - 1)) * val (ofNat256 (val P - 1)) [MOD val P]) := by
  rintro ⟨_, congruent⟩
  exact absurd congruent (by decide)

end RustyPenguin.Crypto.P256
