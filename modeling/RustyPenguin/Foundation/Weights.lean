import Mathlib.Algebra.BigOperators.Fin
import Mathlib.Algebra.BigOperators.Ring.Finset
import Mathlib.Algebra.Order.BigOperators.Ring.Finset
import Mathlib.Tactic.Linarith
import Mathlib.Tactic.LinearCombination

/-!
# Weighted limbs

A number in limbs that need not be reduced: `weigh B f` is the sum of the limbs of `f`, limb
`k` weighing `B ^ k`. Limbs may be negative or larger than the base. Changing one limb moves the
number by the change at the limb's weight (`weigh_update`), so a carry from one limb to the
next does not move it, and reduced limbs hold a number below the base's power
(`weigh_bounds`). After one pass of carries
all limbs but the last are reduced, and a second pass finds nothing to do.
-/

set_option autoImplicit false

namespace RustyPenguin.Weights

variable {n : Nat} (B : ℤ)

/-- The number that limbs hold in base `B`. -/
def weigh (f : Fin n → ℤ) : ℤ := ∑ k, f k * B ^ k.val

theorem weigh_update (f : Fin n → ℤ) (i : Fin n) (x : ℤ) :
    weigh B (Function.update f i x) = weigh B f + (x - f i) * B ^ i.val := by
  have rest : ∑ k ∈ Finset.univ.erase i, Function.update f i x k * B ^ k.val =
      ∑ k ∈ Finset.univ.erase i, f k * B ^ k.val := by
    refine Finset.sum_congr rfl fun k member => ?_
    rw [Function.update_of_ne (Finset.ne_of_mem_erase member)]
  rw [weigh, weigh, ← Finset.add_sum_erase _ _ (Finset.mem_univ i), rest,
    ← Finset.add_sum_erase _ _ (Finset.mem_univ i), Function.update_self]
  ring

theorem weigh_add (f g : Fin n → ℤ) : weigh B (fun k => f k + g k) = weigh B f + weigh B g := by
  rw [weigh, weigh, weigh, ← Finset.sum_add_distrib]
  exact Finset.sum_congr rfl fun k _ => add_mul _ _ _

theorem weigh_sub (f g : Fin n → ℤ) : weigh B (fun k => f k - g k) = weigh B f - weigh B g := by
  rw [weigh, weigh, weigh, ← Finset.sum_sub_distrib]
  exact Finset.sum_congr rfl fun k _ => sub_mul _ _ _

theorem weigh_mul (c : ℤ) (f : Fin n → ℤ) : weigh B (fun k => c * f k) = c * weigh B f := by
  rw [weigh, weigh, Finset.mul_sum]
  exact Finset.sum_congr rfl fun k _ => mul_assoc _ _ _

@[simp] theorem weigh_zero : weigh B (fun _ : Fin n => 0) = 0 := by
  simp [weigh]

/-- The lowest limb apart. -/
theorem weigh_succ (f : Fin (n + 1) → ℤ) :
    weigh B f = f 0 + B * weigh B fun k : Fin n => f k.succ := by
  rw [weigh, weigh, Fin.sum_univ_succ, Finset.mul_sum]
  congr 1
  · rw [Fin.val_zero, pow_zero, mul_one]
  · refine Finset.sum_congr rfl fun k _ => ?_
    rw [Fin.val_succ, pow_succ]
    ring

/-- The highest limb apart. -/
theorem weigh_castSucc (f : Fin (n + 1) → ℤ) :
    weigh B f = weigh B (fun k : Fin n => f k.castSucc) + f (Fin.last n) * B ^ n := by
  rw [weigh, weigh, Fin.sum_univ_castSucc]
  rfl

/-- The limbs below a position and those from it on. -/
theorem weigh_append {m : Nat} (f : Fin (m + n) → ℤ) :
    weigh B f = weigh B (fun k : Fin m => f (k.castAdd n)) +
      B ^ m * weigh B fun k : Fin n => f (k.natAdd m) := by
  rw [weigh, weigh, weigh, Fin.sum_univ_add, Finset.mul_sum]
  congr 1
  refine Finset.sum_congr rfl fun k _ => ?_
  rw [Fin.val_natAdd, pow_add]
  ring

/-- Limbs taken two by two are limbs in the square of the base. -/
theorem weigh_pairs (f : Fin (2 * n) → ℤ) :
    weigh B f = weigh (B ^ 2) fun j : Fin n =>
      f ⟨2 * j.val, by omega⟩ + B * f ⟨2 * j.val + 1, by omega⟩ := by
  induction n with
  | zero =>
    rw [weigh, weigh, Finset.sum_eq_zero fun k _ => absurd k.isLt (Nat.not_lt_zero _),
      Finset.sum_eq_zero fun k _ => absurd k.isLt (Nat.not_lt_zero _)]
  | succ n lower =>
    have low := lower fun k : Fin (2 * n) => f ⟨k.val, by omega⟩
    have upper : weigh B f = weigh B (fun k : Fin (2 * n) => f ⟨k.val, by omega⟩) +
        f ⟨2 * n, by omega⟩ * B ^ (2 * n) + f ⟨2 * n + 1, by omega⟩ * B ^ (2 * n + 1) := by
      rw [show weigh B f = _ from weigh_castSucc B (n := 2 * n + 1) f,
        weigh_castSucc B fun k : Fin (2 * n + 1) => f k.castSucc]
      rfl
    rw [upper, low, weigh_castSucc, pow_succ, pow_mul]
    simp only [Fin.val_last, Fin.val_castSucc]
    ring

/-! ## The lowest limbs -/

/-- The lowest `m` limbs. -/
def upTo (m : Nat) (f : Fin n → ℤ) (k : Fin n) : ℤ := if k.val < m then f k else 0

theorem weigh_upTo_zero (f : Fin n → ℤ) : weigh B (upTo 0 f) = 0 := by
  have none : upTo 0 f = fun _ => 0 := funext fun k => if_neg (Nat.not_lt_zero _)
  rw [none, weigh_zero]

theorem weigh_upTo_succ (f : Fin n → ℤ) (i : Fin n) :
    weigh B (upTo (i.val + 1) f) = weigh B (upTo i.val f) + f i * B ^ i.val := by
  have one : upTo (i.val + 1) f = Function.update (upTo i.val f) i (f i) := by
    funext k
    rw [Function.update_apply]
    split
    · rename_i same
      rw [same, upTo, if_pos (Nat.lt_succ_self _)]
    · rename_i other
      have apart : k.val ≠ i.val := fun same => other (Fin.ext same)
      rw [upTo, upTo]
      exact if_congr (by omega) rfl rfl
  rw [one, weigh_update, upTo, if_neg (Nat.lt_irrefl _), sub_zero]

theorem upTo_all (f : Fin n → ℤ) : upTo n f = f := funext fun k => if_pos k.isLt

variable {B}

/-- Limbs within a bound hold a number within the bound times the weights. -/
theorem weigh_within (positive : 0 ≤ B) {f : Fin n → ℤ} {M : ℤ}
    (within : ∀ k, -M ≤ f k ∧ f k ≤ M) :
    -(M * weigh B fun _ : Fin n => 1) ≤ weigh B f ∧ weigh B f ≤ M * weigh B fun _ : Fin n => 1 := by
  rw [weigh, weigh, Finset.mul_sum, ← Finset.sum_neg_distrib]
  constructor
  · refine Finset.sum_le_sum fun k _ => ?_
    rw [one_mul, ← neg_mul]
    exact mul_le_mul_of_nonneg_right (within k).1 (pow_nonneg positive _)
  · refine Finset.sum_le_sum fun k _ => ?_
    rw [one_mul]
    exact mul_le_mul_of_nonneg_right (within k).2 (pow_nonneg positive _)

/-- Reduced limbs hold a number from zero up to the base's power. -/
theorem weigh_bounds {f : Fin n → ℤ} (reduced : ∀ k, 0 ≤ f k ∧ f k < B) :
    0 ≤ weigh B f ∧ weigh B f < B ^ n := by
  induction n with
  | zero => exact ⟨le_of_eq (Finset.sum_empty).symm, by rw [pow_zero]; exact one_pos⟩
  | succ n lower =>
    obtain ⟨least, most⟩ := lower fun k => reduced k.succ
    obtain ⟨low, high⟩ := reduced 0
    rw [weigh_succ, pow_succ]
    have positive : 0 < B := lt_of_le_of_lt low high
    constructor
    · have scaled := mul_nonneg (le_of_lt positive) least
      omega
    · have scaled : B * weigh B (fun k => f k.succ) ≤ B * (B ^ n - 1) :=
        mul_le_mul_of_nonneg_left (by omega) (le_of_lt positive)
      linarith [mul_sub B (B ^ n) 1, mul_comm B (B ^ n)]

/-- A reduced limb is a digit of the number. -/
theorem weigh_digit {f : Fin n → ℤ} (reduced : ∀ k, 0 ≤ f k ∧ f k < B) (k : Fin n) :
    weigh B f / B ^ k.val % B = f k := by
  induction n with
  | zero => exact k.elim0
  | succ n upper =>
    obtain ⟨low, high⟩ := reduced 0
    have positive : 0 < B := lt_of_le_of_lt low high
    rw [weigh_succ]
    refine Fin.cases ?_ (fun k => ?_) k
    · rw [Fin.val_zero, pow_zero, Int.ediv_one, Int.add_mul_emod_self_left,
        Int.emod_eq_of_lt low high]
    · rw [Fin.val_succ, pow_succ', ← Int.ediv_ediv_of_nonneg (le_of_lt positive),
        Int.add_mul_ediv_left _ _ (ne_of_gt positive), Int.ediv_eq_zero_of_lt low high, zero_add]
      exact upper (fun k => reduced k.succ) k

/-! ## Carries -/

/-- The limbs with limb `i` reduced and what it carried added to the next one. -/
def carryAt (B : ℤ) (f : Fin (n + 1) → ℤ) (i : Fin n) : Fin (n + 1) → ℤ :=
  Function.update (Function.update f i.succ (f i.succ + f i.castSucc / B)) i.castSucc
    (f i.castSucc % B)

theorem weigh_carryAt (f : Fin (n + 1) → ℤ) (i : Fin n) :
    weigh B (carryAt B f i) = weigh B f := by
  have apart : i.castSucc ≠ i.succ := ne_of_lt Fin.castSucc_lt_succ
  have division := Int.emod_add_mul_ediv (f i.castSucc) B
  rw [carryAt, weigh_update, weigh_update, Function.update_of_ne apart, Fin.val_succ,
    Fin.val_castSucc, pow_succ]
  linear_combination B ^ i.val * division

theorem carryAt_self (f : Fin (n + 1) → ℤ) (i : Fin n) :
    carryAt B f i i.castSucc = f i.castSucc % B := by
  rw [carryAt, Function.update_self]

theorem carryAt_next (f : Fin (n + 1) → ℤ) (i : Fin n) :
    carryAt B f i i.succ = f i.succ + f i.castSucc / B := by
  have apart : i.succ ≠ i.castSucc := ne_of_gt Fin.castSucc_lt_succ
  rw [carryAt, Function.update_of_ne apart, Function.update_self]

/-- A carry leaves the limbs above the next one. -/
theorem carryAt_above (f : Fin (n + 1) → ℤ) {i : Fin n} {k : Fin (n + 1)} (above : i.succ < k) :
    carryAt B f i k = f k := by
  have first : k ≠ i.castSucc := ne_of_gt (lt_trans Fin.castSucc_lt_succ above)
  rw [carryAt, Function.update_of_ne first, Function.update_of_ne (ne_of_gt above)]

/-- A carry leaves the limbs below it. -/
theorem carryAt_below (f : Fin (n + 1) → ℤ) {i k : Fin n} (below : k < i) :
    carryAt B f i k.castSucc = f k.castSucc := by
  have first : k.castSucc ≠ i.castSucc := fun same => ne_of_lt below (Fin.castSucc_injective n same)
  have second : k.castSucc ≠ i.succ :=
    ne_of_lt (lt_trans (Fin.castSucc_lt_castSucc_iff.mpr below) Fin.castSucc_lt_succ)
  rw [carryAt, Function.update_of_ne first, Function.update_of_ne second]

/-- A reduced limb carries nothing. -/
theorem carryAt_reduced {f : Fin (n + 1) → ℤ} {i : Fin n} (low : 0 ≤ f i.castSucc)
    (high : f i.castSucc < B) : carryAt B f i = f := by
  rw [carryAt, Int.ediv_eq_zero_of_lt low high, Int.emod_eq_of_lt low high, add_zero,
    Function.update_eq_self, Function.update_eq_self]

/-- The carries of all limbs but the last, from the lowest one up. -/
def carryAll (B : ℤ) (f : Fin (n + 1) → ℤ) : Fin (n + 1) → ℤ :=
  (List.finRange n).foldl (carryAt B) f

/-- After the carries of the first limbs the number is the same and these limbs are reduced. -/
theorem carryAt_foldl (positive : 0 < B) (f : Fin (n + 1) → ℤ) {m : Nat} (within : m ≤ n) :
    weigh B (((List.finRange n).take m).foldl (carryAt B) f) = weigh B f ∧
      ∀ k : Fin n, k.val < m →
        0 ≤ ((List.finRange n).take m).foldl (carryAt B) f k.castSucc ∧
          ((List.finRange n).take m).foldl (carryAt B) f k.castSucc < B := by
  induction m with
  | zero => exact ⟨rfl, fun k below => absurd below (Nat.not_lt_zero _)⟩
  | succ m carried =>
    obtain ⟨same, reduced⟩ := carried (by omega)
    have inside : m < (List.finRange n).length := by
      rw [List.length_finRange]
      exact within
    rw [List.take_succ_eq_append_getElem inside, List.foldl_append, List.foldl_cons,
      List.foldl_nil, List.getElem_finRange]
    generalize ((List.finRange n).take m).foldl (carryAt B) f = g at *
    refine ⟨by rw [weigh_carryAt, same], fun k below => ?_⟩
    by_cases last : k.val = m
    · have this : k = Fin.cast List.length_finRange ⟨m, inside⟩ := Fin.ext last
      rw [← this, carryAt_self]
      exact ⟨Int.emod_nonneg _ (ne_of_gt positive), Int.emod_lt_of_pos _ positive⟩
    · rw [carryAt_below _ (Fin.lt_def.mpr (by show k.val < m; omega))]
      exact reduced k (by omega)

theorem weigh_carryAll (positive : 0 < B) (f : Fin (n + 1) → ℤ) :
    weigh B (carryAll B f) = weigh B f := by
  have run := (carryAt_foldl positive f (le_refl n)).1
  rwa [List.take_of_length_le (by rw [List.length_finRange])] at run

theorem carryAll_reduced (positive : 0 < B) (f : Fin (n + 1) → ℤ) (k : Fin n) :
    0 ≤ carryAll B f k.castSucc ∧ carryAll B f k.castSucc < B := by
  have run := (carryAt_foldl positive f (le_refl n)).2 k k.isLt
  rwa [List.take_of_length_le (by rw [List.length_finRange])] at run

/-- Carries from limbs that are reduced already change nothing. -/
theorem carryAll_of_reduced {f : Fin (n + 1) → ℤ}
    (reduced : ∀ k : Fin n, 0 ≤ f k.castSucc ∧ f k.castSucc < B) : carryAll B f = f := by
  have step : ∀ (l : List (Fin n)), l.foldl (carryAt B) f = f := by
    intro l
    induction l with
    | nil => rfl
    | cons i l unchanged =>
      rw [List.foldl_cons, carryAt_reduced (reduced i).1 (reduced i).2]
      exact unchanged
  exact step _

/-- The reduced limbs below the last one hold the number modulo the last one's weight. -/
theorem weigh_low {f : Fin (n + 1) → ℤ}
    (reduced : ∀ k : Fin n, 0 ≤ f k.castSucc ∧ f k.castSucc < B) :
    weigh B (fun k : Fin n => f k.castSucc) = weigh B f % B ^ n := by
  obtain ⟨least, most⟩ := weigh_bounds reduced
  rw [weigh_castSucc, Int.add_mul_emod_self_right, Int.emod_eq_of_lt least most]

end RustyPenguin.Weights
