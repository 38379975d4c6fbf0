import Mathlib.AlgebraicGeometry.EllipticCurve.Affine.Point
import Mathlib.Tactic.FieldSimp
import Mathlib.Tactic.LinearCombination

/-!
# Jacobian coordinates of short Weierstrass curves

A triple `(x, y, z)` with `z ≠ 0` stands for the affine point `(x / z², y / z³)`, and every triple
with `z = 0` for the point at infinity (`Represents`). The tangent formulas represent the
double of a point (`represents_double`), and the chord formulas the sum of two points whose
abscissas differ (`represents_add`). Where the abscissas agree, the points are equal or
opposite, which the ordinates tell (`eq_of_same`, `add_of_opposite`).
-/

set_option autoImplicit false

namespace RustyPenguin.Jacobian

open WeierstrassCurve.Affine

/-! ## Points and triples -/

section Triples

variable {F : Type*} [Field F] {a b : F}

/-- The curve `y² = x³ + a x + b`. -/
def curve (a b : F) : WeierstrassCurve.Affine F :=
  ⟨0, 0, 0, a, b⟩

@[simp] theorem negY_curve (u v : F) : (curve a b).negY u v = -v := by
  simp [negY, curve]

theorem addX_curve (u₁ u₂ slope : F) : (curve a b).addX u₁ u₂ slope = slope ^ 2 - u₁ - u₂ := by
  simp [addX, curve]

theorem addY_curve (u₁ u₂ v₁ slope : F) : (curve a b).addY u₁ u₂ v₁ slope =
    slope * (u₁ - (slope ^ 2 - u₁ - u₂)) - v₁ := by
  rw [addY, negY_curve, negAddY, addX_curve]
  ring

theorem equation_curve_iff (u v : F) :
    (curve a b).Equation u v ↔ v ^ 2 = u ^ 3 + a * u + b := by
  rw [equation_iff]
  simp [curve]

/-- A point off the axis is no singular one. -/
theorem nonsingular_of_ordinate {u v : F} (two : (2 : F) ≠ 0)
    (equation : v ^ 2 = u ^ 3 + a * u + b) (upper : v ≠ 0) : (curve a b).Nonsingular u v := by
  refine (nonsingular_iff u v).mpr ⟨(equation_curve_iff u v).mpr equation, Or.inr ?_⟩
  intro opposite
  simp only [curve, zero_mul, sub_zero] at opposite
  exact mul_ne_zero two upper (by linear_combination opposite)

/-- A point whose tangent is not level is no singular one. -/
theorem nonsingular_of_tangent {u v : F} (equation : v ^ 2 = u ^ 3 + a * u + b)
    (steep : 3 * u ^ 2 + a ≠ 0) : (curve a b).Nonsingular u v := by
  refine (nonsingular_iff u v).mpr ⟨(equation_curve_iff u v).mpr equation, Or.inl ?_⟩
  simp only [curve, zero_mul, mul_zero, add_zero]
  exact steep.symm

/-- A triple stands for a point of the curve. -/
def Represents (x y z : F) : (curve a b).Point → Prop
  | .zero => z = 0
  | .some u v _ => z ≠ 0 ∧ x = u * z ^ 2 ∧ y = v * z ^ 3

/-- The triples whose last coordinate is zero stand for the point at infinity alone. -/
theorem represents_infinity_iff {x y z : F} (infinite : z = 0) (A : (curve a b).Point) :
    Represents x y z A ↔ A = 0 := by
  cases A with
  | zero => exact ⟨fun _ => rfl, fun _ => infinite⟩
  | some u v point =>
    exact ⟨fun rep => absurd infinite rep.1, fun same => absurd same (Point.some_ne_zero point)⟩

/-- The affine point of a triple whose last coordinate is not zero. -/
theorem represents_finite {x y z : F} (finite : z ≠ 0) {A : (curve a b).Point}
    (rep : Represents x y z A) : ∃ u v, ∃ point : (curve a b).Nonsingular u v,
      A = .some u v point ∧ x = u * z ^ 2 ∧ y = v * z ^ 3 := by
  cases A with
  | zero => exact absurd rep finite
  | some u v point => exact ⟨u, v, point, rfl, rep.2⟩

/-- Two triples whose scaled coordinates agree stand for one point. -/
theorem eq_of_same {x₁ y₁ z₁ x₂ y₂ z₂ : F} (finite₁ : z₁ ≠ 0) (finite₂ : z₂ ≠ 0)
    {A B : (curve a b).Point} (rep₁ : Represents x₁ y₁ z₁ A) (rep₂ : Represents x₂ y₂ z₂ B)
    (abscissa : x₂ * z₁ ^ 2 = x₁ * z₂ ^ 2) (ordinate : y₂ * z₁ ^ 3 = y₁ * z₂ ^ 3) : A = B := by
  obtain ⟨u₁, v₁, point₁, rfl, rfl, rfl⟩ := represents_finite finite₁ rep₁
  obtain ⟨u₂, v₂, point₂, rfl, rfl, rfl⟩ := represents_finite finite₂ rep₂
  have scale : z₁ * z₂ ≠ 0 := mul_ne_zero finite₁ finite₂
  have u : u₁ = u₂ := mul_right_cancel₀ (pow_ne_zero 2 scale) (by linear_combination -abscissa)
  have v : v₁ = v₂ := mul_right_cancel₀ (pow_ne_zero 3 scale) (by linear_combination -ordinate)
  subst u v
  rfl

end Triples

/-! ## Sums -/

section Sums

variable {F : Type*} [Field F] [DecidableEq F] {a b : F}

/-- The tangent's slope. -/
theorem slope_tangent {u v : F} (two : (2 : F) ≠ 0) (upper : v ≠ 0) :
    (curve a b).slope u u v v * (2 * v) = 3 * u ^ 2 + a := by
  have twice : 2 * v ≠ 0 := mul_ne_zero two upper
  have apart : v ≠ (curve a b).negY u v := by
    rw [negY_curve, ← sub_ne_zero, sub_neg_eq_add, ← two_mul]
    exact twice
  rw [slope_of_Y_ne rfl apart, negY_curve, sub_neg_eq_add, ← two_mul, div_mul_cancel₀ _ twice]
  simp [curve]

/-- **The tangent formulas** represent the double of a point. -/
theorem represents_double (two : (2 : F) ≠ 0) {x y z : F} (finite : z ≠ 0)
    {A : (curve a b).Point} (rep : Represents x y z A) :
    Represents ((3 * x ^ 2 + a * z ^ 4) ^ 2 - 2 * (4 * x * y ^ 2))
      ((3 * x ^ 2 + a * z ^ 4) *
          (4 * x * y ^ 2 - ((3 * x ^ 2 + a * z ^ 4) ^ 2 - 2 * (4 * x * y ^ 2))) - 8 * y ^ 4)
      (2 * y * z) (A + A) := by
  obtain ⟨u, v, point, rfl, rfl, rfl⟩ := represents_finite finite rep
  by_cases lower : v = 0
  · rw [Point.add_self_of_Y_eq (by rw [negY_curve, lower, neg_zero])]
    exact (represents_infinity_iff (by rw [lower]; ring) _).mpr rfl
  · have tangent := slope_tangent (a := a) (b := b) (u := u) two lower
    have apart : v ≠ (curve a b).negY u v := by
      rw [negY_curve, ← sub_ne_zero, sub_neg_eq_add, ← two_mul]
      exact mul_ne_zero two lower
    rw [Point.add_self_of_Y_ne apart]
    refine ⟨mul_ne_zero (mul_ne_zero two (mul_ne_zero lower (pow_ne_zero 3 finite))) finite, ?_, ?_⟩
    · rw [addX_curve]
      generalize (curve a b).slope u u v v = slope at *
      have steep : 3 * (u * z ^ 2) ^ 2 + a * z ^ 4 = slope * (2 * v) * z ^ 4 := by
        rw [tangent]
        ring
      rw [steep]
      ring
    · rw [addY_curve]
      generalize (curve a b).slope u u v v = slope at *
      have steep : 3 * (u * z ^ 2) ^ 2 + a * z ^ 4 = slope * (2 * v) * z ^ 4 := by
        rw [tangent]
        ring
      rw [steep]
      ring

/-- **The chord formulas** represent the sum of two points whose abscissas differ. -/
theorem represents_add {x₁ y₁ z₁ x₂ y₂ z₂ : F} (finite₁ : z₁ ≠ 0) (finite₂ : z₂ ≠ 0)
    {A B : (curve a b).Point} (rep₁ : Represents x₁ y₁ z₁ A) (rep₂ : Represents x₂ y₂ z₂ B) {h r : F}
    (width : h = x₂ * z₁ ^ 2 - x₁ * z₂ ^ 2) (height : r = y₂ * z₁ ^ 3 - y₁ * z₂ ^ 3) (apart : h ≠ 0) :
    Represents (r ^ 2 - h ^ 3 - 2 * (x₁ * z₂ ^ 2 * h ^ 2))
      (r * (x₁ * z₂ ^ 2 * h ^ 2 - (r ^ 2 - h ^ 3 - 2 * (x₁ * z₂ ^ 2 * h ^ 2))) -
        y₁ * z₂ ^ 3 * h ^ 3)
      (h * z₁ * z₂) (A + B) := by
  obtain ⟨u₁, v₁, point₁, rfl, rfl, rfl⟩ := represents_finite finite₁ rep₁
  obtain ⟨u₂, v₂, point₂, rfl, rfl, rfl⟩ := represents_finite finite₂ rep₂
  have wide : h = (u₂ - u₁) * (z₁ * z₂) ^ 2 := by
    rw [width]
    ring
  have high : r = (v₂ - v₁) * (z₁ * z₂) ^ 3 := by
    rw [height]
    ring
  have differ : u₁ ≠ u₂ := by
    intro same
    exact apart (by rw [wide, same, sub_self, zero_mul])
  have chord : (curve a b).slope u₁ u₂ v₁ v₂ * (u₂ - u₁) = v₂ - v₁ := by
    rw [slope_of_X_ne differ, ← neg_sub v₂ v₁, ← neg_sub u₂ u₁, neg_div_neg_eq,
      div_mul_cancel₀ _ (sub_ne_zero.mpr differ.symm)]
  rw [Point.add_of_X_ne differ]
  refine ⟨mul_ne_zero (mul_ne_zero apart finite₁) finite₂, ?_, ?_⟩
  · rw [addX_curve]
    generalize (curve a b).slope u₁ u₂ v₁ v₂ = slope at *
    rw [high, ← chord, wide]
    ring
  · rw [addY_curve]
    generalize (curve a b).slope u₁ u₂ v₁ v₂ = slope at *
    rw [high, ← chord, wide]
    ring

/-- Two triples whose scaled abscissas agree and ordinates do not stand for opposite points. -/
theorem add_of_opposite {x₁ y₁ z₁ x₂ y₂ z₂ : F} (finite₁ : z₁ ≠ 0) (finite₂ : z₂ ≠ 0)
    {A B : (curve a b).Point} (rep₁ : Represents x₁ y₁ z₁ A) (rep₂ : Represents x₂ y₂ z₂ B)
    (abscissa : x₂ * z₁ ^ 2 = x₁ * z₂ ^ 2) (ordinate : y₂ * z₁ ^ 3 ≠ y₁ * z₂ ^ 3) : A + B = 0 := by
  obtain ⟨u₁, v₁, point₁, rfl, rfl, rfl⟩ := represents_finite finite₁ rep₁
  obtain ⟨u₂, v₂, point₂, rfl, rfl, rfl⟩ := represents_finite finite₂ rep₂
  have scale : z₁ * z₂ ≠ 0 := mul_ne_zero finite₁ finite₂
  have u : u₁ = u₂ := mul_right_cancel₀ (pow_ne_zero 2 scale) (by linear_combination -abscissa)
  refine Point.add_of_Y_eq u ?_
  rcases Y_eq_of_X_eq point₁.1 point₂.1 u with same | opposite
  · exact absurd (by rw [same]; ring) ordinate
  · exact opposite

end Sums

end RustyPenguin.Jacobian
