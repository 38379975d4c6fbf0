import RustyPenguin.Crypto.P256.Residues
import RustyPenguin.Foundation.Jacobian

/-!
# The group of the curve

The point operations over any multiplication of the field, of which those of the module are the
case of `fpMul`. With an exact multiplication a doubling and an addition represent the sums of
the group of `y² = x³ - 3 x + b`, for whatever `b`: the exceptional cases are the point at
infinity, a point added to itself and a point added to its opposite. A scalar multiplication
reads the scalar from its highest bit, and after `i` bits it holds the multiple by what these
bits are.
-/

set_option autoImplicit false

namespace RustyPenguin.Crypto.P256

open Jacobian WeierstrassCurve.Affine

/-! ## The operations over a multiplication -/

section Operations

variable (mul : U256 → U256 → U256)

def jacDoubleBy (p : Jac) : Jac :=
  if isZero p.z then p
  else
    let y2 := mul p.y p.y
    let s := mul (mul (small 4) p.x) y2
    let x2 := mul p.x p.x
    let z4 := mul (mul p.z p.z) (mul p.z p.z)
    let m := mul (small 3) (fpSub x2 z4)
    let x3 := fpSub (mul m m) (fpAdd s s)
    let y3 := fpSub (mul m (fpSub s x3)) (mul (small 8) (mul y2 y2))
    let z3 := mul (mul (small 2) p.y) p.z
    ⟨x3, y3, z3⟩

def jacAddBy (a b : Jac) : Jac :=
  if isZero a.z then b
  else if isZero b.z then a
  else
    let z1sq := mul a.z a.z
    let z2sq := mul b.z b.z
    let u1 := mul a.x z2sq
    let u2 := mul b.x z1sq
    let s1 := mul a.y (mul b.z z2sq)
    let s2 := mul b.y (mul a.z z1sq)
    let h := fpSub u2 u1
    let r := fpSub s2 s1
    if isZero h then if isZero r then jacDoubleBy mul a else ⟨zero, zero, zero⟩
    else
      let h2 := mul h h
      let h3 := mul h h2
      let uh2 := mul u1 h2
      let x3 := fpSub (fpSub (mul r r) h3) (fpAdd uh2 uh2)
      let y3 := fpSub (mul r (fpSub uh2 x3)) (mul s1 h3)
      let z3 := mul (mul h a.z) b.z
      ⟨x3, y3, z3⟩

def jacToAffineBy (p : Jac) : Option (U256 × U256) :=
  if isZero p.z then none
  else
    let zi := power mul primeMinus2 p.z
    let zi2 := mul zi zi
    let zi3 := mul zi zi2
    some (mul p.x zi2, mul p.y zi3)

def scalarMulBy (k px py : U256) : Option (U256 × U256) :=
  jacToAffineBy mul ((bitsLe k).reverse.foldl
    (fun r bit => if bit then jacAddBy mul (jacDoubleBy mul r) ⟨px, py, small 1⟩
      else jacDoubleBy mul r)
    ⟨zero, zero, zero⟩)

end Operations

theorem jacDouble_eq : jacDouble = jacDoubleBy fpMul := rfl

theorem jacAdd_eq : jacAdd = jacAddBy fpMul := rfl

theorem scalarMul_eq : scalarMul = scalarMulBy fpMul := rfl

/-! ## Representation -/

/-- Reduced Jacobian coordinates of a point of the curve `y² = x³ - 3 x + b`. -/
structure Represents (b : ZMod (val P)) (p : Jac) (A : (curve (-3) b).Point) : Prop where
  reducedX : Reduced p.x
  reducedY : Reduced p.y
  reducedZ : Reduced p.z
  point : Jacobian.Represents (residue p.x) (residue p.y) (residue p.z) A

/-- Reduced affine coordinates of a point, or none at infinity. -/
inductive RepresentsAffine (b : ZMod (val P)) :
    Option (U256 × U256) → (curve (-3) b).Point → Prop where
  | infinity : RepresentsAffine b none 0
  | finite {x y : U256} (reducedX : Reduced x) (reducedY : Reduced y)
      (point : (curve (-3) b).Nonsingular (residue x) (residue y)) :
      RepresentsAffine b (some (x, y)) (.some _ _ point)

theorem two_ne_zero : (2 : ZMod (val P)) ≠ 0 := by
  intro zero
  have divides := (ZMod.natCast_eq_zero_iff 2 (val P)).mp zero
  exact absurd (Nat.le_of_dvd (by decide) divides) (by decide)

theorem three_ne_zero : (3 : ZMod (val P)) ≠ 0 := by
  intro zero
  have divides := (ZMod.natCast_eq_zero_iff 3 (val P)).mp zero
  exact absurd (Nat.le_of_dvd (by decide) divides) (by decide)

/-- Reduced coordinates on the curve, which is smooth for these `b`, represent a point. -/
theorem exists_represents {b : ZMod (val P)} (smooth : b ^ 2 ≠ 4) {p : Jac}
    (reducedX : Reduced p.x) (reducedY : Reduced p.y) (reducedZ : Reduced p.z)
    (onCurve : residue p.y ^ 2 = residue p.x ^ 3 - 3 * residue p.x * residue p.z ^ 4 +
      b * residue p.z ^ 6) : ∃ A, Represents b p A := by
  by_cases infinite : residue p.z = 0
  · exact ⟨0, reducedX, reducedY, reducedZ, infinite⟩
  generalize abscissa : residue p.x / residue p.z ^ 2 = u
  generalize ordinate : residue p.y / residue p.z ^ 3 = v
  have x : residue p.x = u * residue p.z ^ 2 := by
    rw [← abscissa, div_mul_cancel₀ _ (pow_ne_zero 2 infinite)]
  have y : residue p.y = v * residue p.z ^ 3 := by
    rw [← ordinate, div_mul_cancel₀ _ (pow_ne_zero 3 infinite)]
  have equation : v ^ 2 = u ^ 3 + -3 * u + b := by
    refine mul_right_cancel₀ (pow_ne_zero 6 infinite) ?_
    rw [x, y] at onCurve
    linear_combination onCurve
  have point : (curve (-3) b).Nonsingular u v := by
    by_cases lower : v = 0
    · refine nonsingular_of_tangent equation fun level => smooth ?_
      have three : (3 : ZMod (val P)) ≠ 0 := three_ne_zero
      have unit : u ^ 2 = 1 := mul_left_cancel₀ three (by linear_combination level)
      rw [lower] at equation
      linear_combination (b + 2 * u) * (-1 * equation - u * unit) + 4 * unit
    · exact nonsingular_of_ordinate two_ne_zero equation lower
  exact ⟨.some u v point, reducedX, reducedY, reducedZ, infinite, x, y⟩

/-- A point's coordinates stand for its triple. -/
theorem Represents.of_stands {b x y z : ZMod (val P)} {p : Jac} {A : (curve (-3) b).Point}
    (standsX : Stands p.x x) (standsY : Stands p.y y) (standsZ : Stands p.z z)
    (point : Jacobian.Represents x y z A) : Represents b p A := by
  refine ⟨standsX.1, standsY.1, standsZ.1, ?_⟩
  rwa [standsX.2, standsY.2, standsZ.2]

section Exact

variable {mul : U256 → U256 → U256} (exact : ExactMul mul) {b : ZMod (val P)}
include exact

theorem jacDouble_represents {p : Jac} {A : (curve (-3) b).Point} (rep : Represents b p A) :
    Represents b (jacDoubleBy mul p) (A + A) := by
  obtain ⟨reducedX, reducedY, reducedZ, point⟩ := rep
  have x : Stands p.x _ := ⟨reducedX, rfl⟩
  have y : Stands p.y _ := ⟨reducedY, rfl⟩
  have z : Stands p.z _ := ⟨reducedZ, rfl⟩
  rw [jacDoubleBy]
  by_cases infinite : isZero p.z = true
  · rw [if_pos infinite]
    have origin := z.isZero_iff.mp infinite
    rw [(represents_infinity_iff origin A).mp point, add_zero]
    exact ⟨reducedX, reducedY, reducedZ, origin⟩
  · rw [if_neg infinite]
    have double := represents_double two_ne_zero (mt z.isZero_iff.mpr infinite) point
    have two : Stands (small 2) 2 := by simpa using stands_small 2
    have three : Stands (small 3) 3 := by simpa using stands_small 3
    have four : Stands (small 4) 4 := by simpa using stands_small 4
    have eight : Stands (small 8) 8 := by simpa using stands_small 8
    have y2 := stands_mul exact y y
    have s := stands_mul exact (stands_mul exact four x) y2
    have z2 := stands_mul exact z z
    have m := stands_mul exact three ((stands_mul exact x x).sub (stands_mul exact z2 z2))
    have x3 := (stands_mul exact m m).sub (s.add s)
    have y3 := (stands_mul exact m (s.sub x3)).sub
      (stands_mul exact eight (stands_mul exact y2 y2))
    have z3 := stands_mul exact (stands_mul exact two y) z
    refine Represents.of_stands x3 y3 z3 ?_
    convert double using 1 <;> ring

theorem jacAdd_represents {p q : Jac} {A B : (curve (-3) b).Point} (repP : Represents b p A)
    (repQ : Represents b q B) : Represents b (jacAddBy mul p q) (A + B) := by
  have x1 : Stands p.x _ := ⟨repP.reducedX, rfl⟩
  have y1 : Stands p.y _ := ⟨repP.reducedY, rfl⟩
  have z1 : Stands p.z _ := ⟨repP.reducedZ, rfl⟩
  have x2 : Stands q.x _ := ⟨repQ.reducedX, rfl⟩
  have y2 : Stands q.y _ := ⟨repQ.reducedY, rfl⟩
  have z2 : Stands q.z _ := ⟨repQ.reducedZ, rfl⟩
  rw [jacAddBy]
  by_cases infiniteP : isZero p.z = true
  · rw [if_pos infiniteP, (represents_infinity_iff (z1.isZero_iff.mp infiniteP) A).mp repP.point,
      zero_add]
    exact repQ
  rw [if_neg infiniteP]
  by_cases infiniteQ : isZero q.z = true
  · rw [if_pos infiniteQ, (represents_infinity_iff (z2.isZero_iff.mp infiniteQ) B).mp repQ.point,
      add_zero]
    exact repP
  rw [if_neg infiniteQ]
  have finiteP := mt z1.isZero_iff.mpr infiniteP
  have finiteQ := mt z2.isZero_iff.mpr infiniteQ
  have z1sq := stands_mul exact z1 z1
  have z2sq := stands_mul exact z2 z2
  have u1 := stands_mul exact x1 z2sq
  have u2 := stands_mul exact x2 z1sq
  have s1 := stands_mul exact y1 (stands_mul exact z2 z2sq)
  have s2 := stands_mul exact y2 (stands_mul exact z1 z1sq)
  have h := u2.sub u1
  have r := s2.sub s1
  dsimp only
  by_cases same : isZero (fpSub (mul q.x (mul p.z p.z)) (mul p.x (mul q.z q.z))) = true
  · rw [if_pos same]
    have abscissa := h.isZero_iff.mp same
    by_cases equal : isZero (fpSub (mul q.y (mul p.z (mul p.z p.z)))
        (mul p.y (mul q.z (mul q.z q.z)))) = true
    · have ordinate := r.isZero_iff.mp equal
      rw [if_pos equal, ← eq_of_same finiteP finiteQ repP.point repQ.point
        (by linear_combination abscissa) (by linear_combination ordinate)]
      exact jacDouble_represents exact repP
    · have ordinate := mt r.isZero_iff.mpr equal
      rw [if_neg equal, add_of_opposite finiteP finiteQ repP.point repQ.point
        (by linear_combination abscissa)
        (fun level => ordinate (by linear_combination level))]
      exact Represents.of_stands stands_zero stands_zero stands_zero rfl
  · rw [if_neg same]
    have sum := represents_add finiteP finiteQ repP.point repQ.point
      (r := residue q.y * (residue p.z * (residue p.z * residue p.z)) -
        residue p.y * (residue q.z * (residue q.z * residue q.z)))
      (by ring) (by ring) (mt h.isZero_iff.mpr same)
    have h2 := stands_mul exact h h
    have h3 := stands_mul exact h h2
    have uh2 := stands_mul exact u1 h2
    have x3 := ((stands_mul exact r r).sub h3).sub (uh2.add uh2)
    have y3 := (stands_mul exact r (uh2.sub x3)).sub (stands_mul exact s1 h3)
    have z3 := stands_mul exact (stands_mul exact h z1) z2
    refine Represents.of_stands x3 y3 z3 ?_
    convert sum using 1 <;> ring

theorem jacToAffine_represents {p : Jac} {A : (curve (-3) b).Point} (rep : Represents b p A) :
    RepresentsAffine b (jacToAffineBy mul p) A := by
  have x : Stands p.x _ := ⟨rep.reducedX, rfl⟩
  have y : Stands p.y _ := ⟨rep.reducedY, rfl⟩
  have z : Stands p.z _ := ⟨rep.reducedZ, rfl⟩
  rw [jacToAffineBy]
  by_cases infinite : isZero p.z = true
  · rw [if_pos infinite]
    rw [(represents_infinity_iff (z.isZero_iff.mp infinite) A).mp rep.point]
    exact .infinity
  · rw [if_neg infinite]
    have finite := mt z.isZero_iff.mpr infinite
    obtain ⟨u, v, point, rfl, abscissa, ordinate⟩ := represents_finite finite rep.point
    have zi := inverse_spec exact z finite
    have zi2 := stands_mul exact zi zi
    have zi3 := stands_mul exact zi zi2
    obtain ⟨reducedX, affineX⟩ := stands_mul exact x zi2
    obtain ⟨reducedY, affineY⟩ := stands_mul exact y zi3
    have horizontal : residue p.x * ((residue p.z)⁻¹ * (residue p.z)⁻¹) = u := by
      rw [abscissa]
      field_simp
    have vertical : residue p.y * ((residue p.z)⁻¹ * ((residue p.z)⁻¹ * (residue p.z)⁻¹)) = v := by
      rw [ordinate]
      field_simp
    rw [horizontal] at affineX
    rw [vertical] at affineY
    subst affineX affineY
    exact .finite reducedX reducedY point

end Exact

/-! ## Scalar multiplication -/

/-- The number of bits, lowest first. -/
def bitsValue : List Bool → Nat
  | [] => 0
  | bit :: bits => bit.toNat + 2 * bitsValue bits

theorem bitsValue_testBit (n v : Nat) : bitsValue ((List.range n).map v.testBit) = v % 2 ^ n := by
  induction n generalizing v with
  | zero => rw [pow_zero, Nat.mod_one, List.range_zero, List.map_nil, bitsValue]
  | succ n lower =>
    have upper : (List.range n).map (v.testBit ∘ Nat.succ) = (List.range n).map (v / 2).testBit :=
      List.map_congr_left fun i _ => Nat.testBit_succ v i
    have low : (v.testBit 0).toNat = v % 2 := by
      rw [Nat.toNat_testBit, pow_zero, Nat.div_one]
    rw [List.range_succ_eq_map, List.map_cons, List.map_map, upper, bitsValue, lower, low, pow_succ',
      Nat.mod_mul]

theorem bitsValue_bitsLe (a : U256) : bitsValue (bitsLe a) = val a := by
  rw [bitsLe_eq, bitsValue_testBit, Nat.mod_eq_of_lt (val_lt a)]

/-- Double-and-add over the bits of a scalar, read from the highest one, holds the multiple of
the point by the bits read. -/
theorem doubleAndAdd_represents {mul : U256 → U256 → U256} (exact : ExactMul mul)
    {b : ZMod (val P)} {q : Jac} {A : (curve (-3) b).Point} (rep : Represents b q A)
    (bits : List Bool) :
    Represents b (bits.foldr
      (fun bit r => if bit then jacAddBy mul (jacDoubleBy mul r) q else jacDoubleBy mul r)
      ⟨zero, zero, zero⟩) (bitsValue bits • A) := by
  induction bits with
  | nil =>
    rw [bitsValue, zero_nsmul]
    exact Represents.of_stands stands_zero stands_zero stands_zero rfl
  | cons bit bits upper =>
    have double := jacDouble_represents exact upper
    rw [← add_nsmul, ← two_mul] at double
    rw [List.foldr_cons, bitsValue]
    cases bit with
    | false =>
      rw [Bool.toNat_false, zero_add]
      exact double
    | true =>
      rw [Bool.toNat_true, add_comm, add_nsmul, one_nsmul]
      exact jacAdd_represents exact double rep

theorem scalarMul_represents {mul : U256 → U256 → U256} (exact : ExactMul mul)
    {b : ZMod (val P)} (k : U256) {px py : U256} {A : (curve (-3) b).Point}
    (rep : RepresentsAffine b (some (px, py)) A) :
    RepresentsAffine b (scalarMulBy mul k px py) (val k • A) := by
  obtain ⟨⟩ | ⟨reducedX, reducedY, point⟩ := rep
  have one : Stands (small 1) 1 := by simpa using stands_small 1
  have base : Represents b ⟨px, py, small 1⟩ (.some _ _ point) := by
    refine Represents.of_stands ⟨reducedX, rfl⟩ ⟨reducedY, rfl⟩ one ⟨one_ne_zero, ?_, ?_⟩
    · rw [one_pow, mul_one]
    · rw [one_pow, mul_one]
  rw [scalarMulBy, List.foldl_reverse, ← bitsValue_bitsLe k]
  exact jacToAffine_represents exact (doubleAndAdd_represents exact base _)

/-- **The group law**: with an exact multiplication, doubling and adding reduced Jacobian
coordinates represents the sums of the points they stand for, and a scalar multiplication
represents the multiple. -/
theorem group_law {mul : U256 → U256 → U256} (exact : ExactMul mul) (b : ZMod (val P)) :
    (∀ (p : Jac) (A : (curve (-3) b).Point), Represents b p A →
      Represents b (jacDoubleBy mul p) (A + A)) ∧
    (∀ (p q : Jac) (A B : (curve (-3) b).Point), Represents b p A → Represents b q B →
      Represents b (jacAddBy mul p q) (A + B)) ∧
    (∀ (k px py : U256) (A : (curve (-3) b).Point), RepresentsAffine b (some (px, py)) A →
      RepresentsAffine b (scalarMulBy mul k px py) (val k • A)) :=
  ⟨fun _ _ rep => jacDouble_represents exact rep,
    fun _ _ _ _ repP repQ => jacAdd_represents exact repP repQ,
    fun k _ _ _ rep => scalarMul_represents exact k rep⟩

/-! ## The generator -/

/-- The product modulo the prime. -/
def mulModP (a b : U256) : U256 := ofNat256 (val a * val b % val P)

theorem exactMul_mulModP : ExactMul mulModP := by
  intro a b _ _
  have below : val a * val b % val P < val P := Nat.mod_lt _ prime_P.pos
  have value : val (mulModP a b) = val a * val b % val P :=
    val_ofNat256 (Nat.lt_trans below (val_lt P))
  rw [value]
  exact ⟨below, Nat.mod_modEq _ _⟩

/-- The coefficient of P-256. -/
def coefficient : ZMod (val P) :=
  (0x5AC635D8AA3A93E7B3EBBD55769886BC651D06B0CC53B0F63BCE3C3E27D2604B : ℕ)

theorem generator_nonsingular :
    (curve (-3) coefficient).Nonsingular (residue GX) (residue GY) := by
  have equation : residue GY ^ 2 + 3 * residue GX = residue GX ^ 3 + coefficient := by
    rw [residue, residue, coefficient]
    exact_mod_cast (ZMod.natCast_eq_natCast_iff _ _ (val P)).mpr
      (show val GY ^ 2 + 3 * val GX ≡ val GX ^ 3 +
        0x5AC635D8AA3A93E7B3EBBD55769886BC651D06B0CC53B0F63BCE3C3E27D2604B [MOD val P] by
          decide)
  have upper : residue GY ≠ 0 := fun zero =>
    absurd ((residue_eq_zero_iff (by decide)).mp zero) (by decide)
  exact nonsingular_of_ordinate two_ne_zero (by linear_combination equation) upper

theorem group_law_generator :
    RepresentsAffine coefficient (scalarMulBy mulModP (small 5) GX GY)
      (val (small 5) • Point.some _ _ generator_nonsingular) :=
  (group_law exactMul_mulModP coefficient).2.2 (small 5) GX GY _
    (.finite (by decide) (by decide) generator_nonsingular)

end RustyPenguin.Crypto.P256
