import Mathlib.Data.List.Prime
import Mathlib.NumberTheory.LucasPrimality

/-!
# Primes by Lucas's test

`prime_of_lucas` certifies a large prime from a primitive root and the prime factors of its
predecessor. The powers are computed by squaring and reducing (`powMod`), so that the test of a
prime of some hundred bits is evaluated in as many steps. The factors of the predecessor are
certified in turn by what stands below them on a ladder (`Climbs`).
-/

set_option autoImplicit false

namespace RustyPenguin.Primality

/-- The power `a ^ e` modulo `m`, for an exponent of so many bits. -/
def powMod (m a : Nat) : Nat → Nat → Nat
  | 0, _ => 1 % m
  | bits + 1, e =>
    let half := powMod m a bits (e / 2)
    if e % 2 = 1 then half * half % m * a % m else half * half % m

theorem powMod_eq (m a : Nat) {bits e : Nat} (fits : e < 2 ^ bits) :
    powMod m a bits e = a ^ e % m := by
  induction bits generalizing e with
  | zero =>
    have none : e = 0 := by rwa [pow_zero, Nat.lt_one_iff] at fits
    rw [none, pow_zero, powMod]
  | succ bits lower =>
    have half : e / 2 < 2 ^ bits := by rw [pow_succ] at fits; omega
    have square : a ^ (e / 2) % m * (a ^ (e / 2) % m) % m = a ^ (2 * (e / 2)) % m := by
      rw [← Nat.mul_mod, two_mul, pow_add]
    rw [powMod, lower half, square]
    split
    · rename_i odd
      have split : e = 2 * (e / 2) + 1 := by omega
      conv_rhs => rw [split, pow_succ]
      rw [Nat.mod_mul_mod]
    · rename_i even
      have split : e = 2 * (e / 2) := by omega
      conv_rhs => rw [split]

/-- A power is one modulo `p` as `powMod` computes it. -/
theorem pow_eq_one_iff {p a bits e : Nat} (large : 1 < p) (fits : e < 2 ^ bits) :
    (a : ZMod p) ^ e = 1 ↔ powMod p a bits e = 1 := by
  rw [powMod_eq p a fits, ← Nat.cast_pow, ← Nat.cast_one, ZMod.natCast_eq_natCast_iff',
    Nat.mod_eq_of_lt large]

/-- **Lucas's test**: a number is prime if its predecessor is a product of primes and some `a`
has the predecessor as its order. -/
theorem prime_of_lucas {p : Nat} (a bits : Nat) (factors : List Nat) (large : 1 < p)
    (fits : p < 2 ^ bits) (primes : ∀ q ∈ factors, q.Prime) (product : factors.prod = p - 1)
    (order : powMod p a bits (p - 1) = 1)
    (proper : ∀ q ∈ factors, powMod p a bits ((p - 1) / q) ≠ 1) : p.Prime := by
  refine lucas_primality p a ((pow_eq_one_iff large (by omega)).mpr order) ?_
  intro q prime divides
  rw [← product] at divides
  obtain ⟨factor, member, dividesFactor⟩ := (Prime.dvd_prod_iff prime.prime).mp divides
  have same : q = factor := (Nat.prime_dvd_prime_iff_eq prime (primes factor member)).mp dividesFactor
  have smaller : (p - 1) / factor ≤ p - 1 := Nat.div_le_self _ _
  rw [ne_eq, same, pow_eq_one_iff large (show (p - 1) / factor < 2 ^ bits by omega)]
  exact proper factor member

/-- A certificate of a prime: a base of the test and the prime factors of the predecessor. -/
structure Certificate where
  number : Nat
  base : Nat
  factors : List Nat

/-- The number passes the test, the factors being among the given primes. -/
def Certificate.Passes (c : Certificate) (primes : List Nat) : Prop :=
  (1 < c.number ∧ ∀ q ∈ c.factors, q ∈ primes) ∧ c.factors.prod = c.number - 1 ∧
    powMod c.number c.base (c.number.log2 + 1) (c.number - 1) = 1 ∧
      ∀ q ∈ c.factors, powMod c.number c.base (c.number.log2 + 1) ((c.number - 1) / q) ≠ 1

instance (c : Certificate) (primes : List Nat) : Decidable (c.Passes primes) :=
  inferInstanceAs (Decidable ((_ ∧ _) ∧ _ ∧ _ ∧ _))

theorem Certificate.Passes.prime {c : Certificate} {primes : List Nat} (passes : c.Passes primes)
    (below : ∀ q ∈ primes, q.Prime) : c.number.Prime := by
  obtain ⟨⟨large, factors⟩, product, order, proper⟩ := passes
  exact prime_of_lucas c.base _ c.factors large Nat.lt_log2_self
    (fun q member => below q (factors q member)) product order proper

/-- Certificates each of which passes with the numbers of the ones behind it. -/
def Climbs : List Certificate → Prop
  | [] => True
  | c :: rest => c.Passes (rest.map Certificate.number) ∧ Climbs rest

instance decidableClimbs : (ladder : List Certificate) → Decidable (Climbs ladder)
  | [] => inferInstanceAs (Decidable True)
  | _ :: rest =>
    have := decidableClimbs rest
    inferInstanceAs (Decidable (_ ∧ Climbs rest))

/-- **The numbers of a ladder are primes.** -/
theorem Climbs.prime {ladder : List Certificate} (passes : Climbs ladder) :
    ∀ c ∈ ladder, c.number.Prime := by
  induction ladder with
  | nil => exact fun c member => absurd member List.not_mem_nil
  | cons first rest below =>
    have primes : ∀ q ∈ rest.map Certificate.number, q.Prime := by
      intro q member
      obtain ⟨c, among, rfl⟩ := List.mem_map.mp member
      exact below passes.2 c among
    intro c member
    rcases List.mem_cons.mp member with rfl | among
    · exact passes.1.prime primes
    · exact below passes.2 c among

end RustyPenguin.Primality
