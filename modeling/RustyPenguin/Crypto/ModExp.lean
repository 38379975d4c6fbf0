import Mathlib.Data.Nat.Prime.Basic
import RustyPenguin.Crypto.Montgomery

/-!
# Modular exponentiation is exact

`modExp` reads its modulus without leading zero bytes into as many limbs as it needs, reads
the base into the same number of limbs, computes `2^(128 k)` modulo the modulus by doubling,
and squares and multiplies in Montgomery form from the most significant bit of the exponent.

The base need not be below the modulus: one subtraction is made, and what remains is a
multiplicand, which the Montgomery product takes whatever its size. A base with more bytes
than the limbs hold is cut to its lowest bytes. `modExp_exact` says what is computed in all
cases.
-/

set_option autoImplicit false

namespace RustyPenguin.Crypto

open Checked Limbs

/-! ## Bytes and limbs -/

/-- A byte far above a limb leaves it as it is. -/
theorem ofNat_limb_below {v i j b : Nat} (below : 8 * (j + 1) ≤ i) :
    UInt64.ofNat ((v + 256 ^ i * b) / 2 ^ (64 * j)) = UInt64.ofNat (v / 2 ^ (64 * j)) := by
  have width : (256 : Nat) ^ i = 2 ^ (64 * j) * (2 ^ 64 * 2 ^ (8 * i - 64 * (j + 1))) := by
    rw [show (256 : Nat) = 2 ^ 8 from rfl, ← pow_mul, ← pow_add, ← pow_add]
    congr 1
    omega
  refine UInt64.toNat_inj.mp ?_
  rw [UInt64.toNat_ofNat', UInt64.toNat_ofNat', width, Nat.mul_assoc,
    Nat.add_mul_div_left _ _ (Nat.two_pow_pos _), Nat.mul_assoc, Nat.add_mul_mod_self_left]

/-- A byte put above the bits of a limb is added to it. -/
theorem or_shiftLeft_eq {x s : Nat} {b : UInt8} (small : x < 2 ^ s) (fits : b.toNat * 2 ^ s < 2 ^ 64)
    (inside : s < 64) :
    UInt64.ofNat x ||| b.toUInt64 <<< UInt64.ofNat s = UInt64.ofNat (x + 2 ^ s * b.toNat) := by
  have word : x < 2 ^ 64 := Nat.lt_trans small (Nat.pow_lt_pow_right (by decide) inside)
  have shift : (UInt64.ofNat s).toNat % 64 = s := by
    rw [UInt64.toNat_ofNat']
    omega
  have sum : b.toNat * 2 ^ s ||| x = b.toNat * 2 ^ s + x := by
    rw [← Nat.shiftLeft_eq, Nat.shiftLeft_add_eq_or_of_lt small]
  refine UInt64.toNat_inj.mp ?_
  rw [UInt64.toNat_or, UInt64.toNat_shiftLeft, shift, UInt8.toNat_toUInt64, Nat.shiftLeft_eq,
    Nat.mod_eq_of_lt fits, UInt64.toNat_ofNat', UInt64.toNat_ofNat', Nat.mod_eq_of_lt word,
    Nat.or_comm, sum, Nat.mul_comm (2 ^ s), Nat.add_comm x, Nat.mod_eq_of_lt]
  rw [← sum]
  exact Nat.or_lt_two_pow fits word

/-- One more byte above those that the limbs hold already. -/
theorem fromBeStep_limbsOf (k : Nat) {v i : Nat} (below : v < 256 ^ i) (b : UInt8) :
    fromBeStep k (limbsOf k v, 8 * i) b = (limbsOf k (v + 256 ^ i * b.toNat), 8 * (i + 1)) := by
  have byteSize := b.toNat_lt
  have limb : 8 * i / 64 = i / 8 := by omega
  have shift : 8 * i % 64 = 8 * (i % 8) := by omega
  have noSecond : ¬ (56 < 8 * (i % 8) ∧ i / 8 + 1 < k) := by omega
  rw [fromBeStep]
  dsimp only
  rw [limb, shift, if_neg noSecond]
  refine Prod.ext ?_ (by dsimp only; omega)
  dsimp only
  split
  · refine List.ext_getElem (by simp) fun j inside inside' => ?_
    rw [List.getElem_modify, getElem_limbsOf, getElem_limbsOf]
    split
    · rename_i here
      have width : (256 : Nat) ^ i = 2 ^ (64 * j) * 2 ^ (8 * (i % 8)) := by
        rw [show (256 : Nat) = 2 ^ 8 from rfl, ← pow_mul, ← pow_add]
        congr 1
        omega
      have small : v / 2 ^ (64 * j) < 2 ^ (8 * (i % 8)) := by
        rw [Nat.div_lt_iff_lt_mul (Nat.two_pow_pos _), Nat.mul_comm, ← width]
        exact below
      have limit : (2 : Nat) ^ (8 * (i % 8)) * 256 ≤ 2 ^ 64 := by
        rw [show (256 : Nat) = 2 ^ 8 from rfl, ← pow_add]
        exact Nat.pow_le_pow_right (by decide) (by omega)
      have fits : b.toNat * 2 ^ (8 * (i % 8)) < 2 ^ 64 := by
        refine Nat.lt_of_lt_of_le (Nat.mul_lt_mul_of_pos_right byteSize (Nat.two_pow_pos _)) ?_
        rw [Nat.mul_comm]
        exact limit
      rw [width, Nat.mul_assoc, Nat.add_mul_div_left _ _ (Nat.two_pow_pos _)]
      exact or_shiftLeft_eq small fits (by omega)
    · rename_i elsewhere
      rcases Nat.lt_or_gt_of_ne elsewhere with above | under
      · have width : (256 : Nat) ^ (i + 1) ≤ 2 ^ (64 * j) := by
          rw [show (256 : Nat) = 2 ^ 8 from rfl, ← pow_mul]
          exact Nat.pow_le_pow_right (by decide) (by omega)
        have whole : v + 256 ^ i * b.toNat < 256 ^ (i + 1) := by
          have step : 256 ^ i * b.toNat ≤ 256 ^ i * 255 := Nat.mul_le_mul_left _ (by omega)
          rw [pow_succ]
          omega
        rw [Nat.div_eq_of_lt (by omega), Nat.div_eq_of_lt (by omega)]
      · exact (ofNat_limb_below (by omega)).symm
  · refine List.ext_getElem (by simp) fun j inside inside' => ?_
    rw [length_limbsOf] at inside
    rw [getElem_limbsOf, getElem_limbsOf]
    exact (ofNat_limb_below (by omega)).symm

/-- Reading bytes gives the lowest limbs of the number they say. -/
theorem fromBe_eq (bytes : List UInt8) (k : Nat) : fromBe bytes k = limbsOf k (ofBytes bytes) := by
  have start : List.replicate k 0 = limbsOf k 0 := by
    refine List.ext_getElem (by simp) fun j inside inside' => ?_
    rw [getElem_limbsOf, List.getElem_replicate, Nat.zero_div]
    rfl
  have steps : bytes.reverse.foldl (fromBeStep k) (List.replicate k 0, 0) =
      (limbsOf k (ofBytes bytes), 8 * bytes.length) := by
    induction bytes with
    | nil => rw [start]; rfl
    | cons b bytes earlier =>
      rw [List.reverse_cons, List.foldl_append, earlier, List.foldl_cons, List.foldl_nil,
        fromBeStep_limbsOf k (ofBytes_lt bytes) b, ofBytes_cons, List.length_cons]
  rw [fromBe, steps]

theorem ofBytes_beBytes (x : UInt32) : ofBytes (beBytes x) = x.toNat := by
  have bound := x.toNat_lt
  simp [beBytes, ofBytes, Nat.ofDigits_cons, Nat.shiftRight_eq_div_pow]
  omega

theorem ofBytes_beBytes64 (x : UInt64) : ofBytes (beBytes64 x) = x.toNat := by
  have bound := x.toNat_lt
  rw [beBytes64, ofBytes_append, ofBytes_beBytes, ofBytes_beBytes, UInt64.toNat_toUInt32,
    UInt64.toNat_toUInt32, UInt64.toNat_shiftRight]
  change x.toNat % 2 ^ 32 + 256 ^ 4 * (x.toNat >>> 32 % 2 ^ 32) = x.toNat
  rw [Nat.shiftRight_eq_div_pow]
  omega

/-- Writing limbs gives the bytes of the number they hold. -/
theorem toBe_spec (limbs : List UInt64) :
    (toBe limbs).length = 8 * limbs.length ∧ ofBytes (toBe limbs) = value limbs := by
  induction limbs with
  | nil => exact ⟨rfl, rfl⟩
  | cons x limbs higher =>
    have split : toBe (x :: limbs) = toBe limbs ++ beBytes64 x := by
      rw [toBe, List.reverse_cons, List.flatMap_append, List.flatMap_singleton]
      rfl
    have size : (beBytes64 x).length = 8 := rfl
    refine ⟨?_, ?_⟩
    · rw [split, List.length_append, higher.1, size, List.length_cons]
      omega
    · rw [split, ofBytes_append, higher.2, ofBytes_beBytes64, size, value_cons]
      norm_num

/-- Leading zero bytes do not change the number, and at most one byte zero is left. -/
theorem ofBytes_trimZeros (n : List UInt8) : ofBytes (trimZeros n) = ofBytes n := by
  induction n with
  | nil => rfl
  | cons x rest shorter =>
    match rest with
    | [] => rfl
    | y :: rest =>
      rw [trimZeros]
      split
      · rename_i zero
        rw [shorter, zero, ofBytes_zero_cons]
      · rfl

/-! ## Doubling -/

/-- Shifting limbs up by a bit doubles the number, with the bit shifted out above. -/
theorem shl1_spec : ∀ (a : List UInt64) {carry : UInt64}, carry.toNat ≤ 1 →
    (shl1 carry a).1.length = a.length ∧ (shl1 carry a).2.toNat ≤ 1 ∧
      value (shl1 carry a).1 + 2 ^ (64 * a.length) * (shl1 carry a).2.toNat =
        2 * value a + carry.toNat := by
  intro a
  induction a with
  | nil =>
    intro carry small
    exact ⟨rfl, small, by simp [shl1]⟩
  | cons x a rest =>
    intro carry small
    have bound := x.toNat_lt
    have out : (x >>> 63).toNat = x.toNat / 2 ^ 63 := by
      rw [UInt64.toNat_shiftRight, Nat.shiftRight_eq_div_pow]
      rfl
    have low : (x <<< 1 ||| carry).toNat = 2 * x.toNat % 2 ^ 64 + carry.toNat := by
      have even : 2 * x.toNat % 2 ^ 64 = (x.toNat % 2 ^ 63) <<< 1 := by
        rw [Nat.shiftLeft_eq]
        omega
      have double : (x <<< 1).toNat = 2 * x.toNat % 2 ^ 64 := by
        rw [UInt64.toNat_shiftLeft, Nat.shiftLeft_eq, Nat.mul_comm]
        rfl
      rw [UInt64.toNat_or, double, even]
      exact (Nat.shiftLeft_add_eq_or_of_lt (by omega) _).symm
    obtain ⟨size, small', total⟩ := @rest (x >>> 63) (by rw [out]; omega)
    rw [shl1]
    refine ⟨by simp only [List.length_cons, size], small', ?_⟩
    dsimp only
    have split := Nat.mod_add_div (2 * x.toNat) (2 ^ 64)
    have high : 2 * x.toNat / 2 ^ 64 = x.toNat / 2 ^ 63 := by omega
    rw [high] at split
    rw [out] at total
    rw [value_cons, value_cons, low, List.length_cons, Nat.mul_succ, pow_add]
    linear_combination 2 ^ 64 * total + split

section Modulus

variable {n : List UInt64}

/-- Doubling modulo the modulus. -/
theorem double_ok {a : List UInt64} (size : a.length = n.length) (reduced : value a < value n) :
    ∃ r, double n a = .ok r ∧ r.length = n.length ∧ value r < value n ∧
      value r ≡ 2 * value a [MOD value n] := by
  obtain ⟨size', _, total⟩ := @shl1_spec a 0 (Nat.zero_le 1)
  rw [UInt64.toNat_zero, Nat.add_zero, ← size'] at total
  have within : value (shl1 0 a).1 + 2 ^ (64 * (shl1 0 a).1.length) * (shl1 0 a).2.toNat <
      2 * value n := by
    omega
  obtain ⟨r, runs, sizeR, below, congruent⟩ := condSubtract_ok (size'.trans size) within
  rw [total] at congruent
  exact ⟨r, runs, sizeR, below, congruent⟩

/-- Doubling once for each element of a list. -/
theorem doubles_ok (times : List Nat) : ∀ {a : List UInt64}, a.length = n.length →
    value a < value n → ∃ r, times.foldlM (fun r _ => double n r) a = .ok r ∧
      r.length = n.length ∧ value r < value n ∧
        value r ≡ 2 ^ times.length * value a [MOD value n] := by
  induction times with
  | nil =>
    intro a size reduced
    refine ⟨a, rfl, size, reduced, ?_⟩
    rw [List.length_nil, pow_zero, Nat.one_mul]
  | cons _ times rest =>
    intro a size reduced
    obtain ⟨b, runs, sizeB, belowB, congruentB⟩ := double_ok size reduced
    obtain ⟨r, runs', sizeR, belowR, congruentR⟩ := rest sizeB belowB
    refine ⟨r, ?_, sizeR, belowR, ?_⟩
    · rw [List.foldlM_cons]
      exact bind_eq_ok.mpr ⟨b, runs, runs'⟩
    · calc value r ≡ 2 ^ times.length * value b [MOD value n] := congruentR
        _ ≡ 2 ^ times.length * (2 * value a) [MOD value n] := congruentB.mul_left _
        _ = 2 ^ (times.length + 1) * value a := by ring

/-! ## Square and multiply -/

/-- The exponent that bits say, the most significant first, after those already read. -/
def exponent (e : Nat) (bits : List Bool) : Nat := bits.foldl (fun e bit => 2 * e + bit.toNat) e

theorem exponent_shift (bits : List Bool) :
    ∀ e, exponent e bits = 2 ^ bits.length * e + exponent 0 bits := by
  induction bits with
  | nil =>
    intro e
    simp [exponent]
  | cons bit bits rest =>
    intro e
    have first : ∀ e, exponent e (bit :: bits) = exponent (2 * e + bit.toNat) bits := fun _ => rfl
    rw [first, first, rest, rest (2 * 0 + bit.toNat), List.length_cons]
    ring

/-- The lowest bits of a number, the most significant first. -/
theorem exponent_testBits (x n : Nat) :
    exponent 0 ((List.range n).reverse.map x.testBit) = x % 2 ^ n := by
  induction n with
  | zero => exact (Nat.mod_one x).symm
  | succ n rest =>
    have first : exponent 0 ((List.range (n + 1)).reverse.map x.testBit) =
        exponent (x.testBit n).toNat ((List.range n).reverse.map x.testBit) := by
      rw [List.range_succ, List.reverse_concat]
      change exponent (2 * 0 + (x.testBit n).toNat) _ = _
      rw [Nat.mul_zero, Nat.zero_add]
    rw [first, exponent_shift, rest, List.length_map, List.length_reverse, List.length_range,
      Nat.toNat_testBit, Nat.pow_succ, Nat.mod_mul, Nat.add_comm]

theorem exponent_bitsOf (e : Nat) (b : UInt8) : exponent e (bitsOf b) = 256 * e + b.toNat := by
  have own : exponent 0 (bitsOf b) = b.toNat :=
    (exponent_testBits b.toNat 8).trans (Nat.mod_eq_of_lt b.toNat_lt)
  have size : (bitsOf b).length = 8 := by simp [bitsOf]
  rw [exponent_shift, size, own]
  rfl

theorem exponent_bytes (exp : List UInt8) (e : Nat) :
    exponent e (exp.flatMap bitsOf) = 256 ^ exp.length * e + ofBytes exp := by
  induction exp generalizing e with
  | nil => simp [exponent]
  | cons b exp rest =>
    have split : exponent e ((b :: exp).flatMap bitsOf) =
        exponent (exponent e (bitsOf b)) (exp.flatMap bitsOf) := by
      rw [List.flatMap_cons, exponent, List.foldl_append]
      rfl
    rw [split, exponent_bitsOf, rest, ofBytes_cons, List.length_cons]
    ring

/-- A result in Montgomery form after the exponent `e` of `base`: none before its first bit. -/
def Powers (n : List UInt64) (base e : Nat) : Option (List UInt64) → Prop
  | none => e = 0
  | some r => 0 < e ∧ r.length = n.length ∧ value r < value n ∧
      value r ≡ base ^ e * 2 ^ (64 * n.length) [MOD value n]

variable {n0i n0 : UInt64} {nrest : List UInt64}

theorem coprime_width (odd : value n % 2 = 1) (k : Nat) : Nat.Coprime (value n) (2 ^ k) :=
  Nat.Coprime.pow_right k (Nat.coprime_two_right.mpr (Nat.odd_iff.mpr odd))

/-- The product of two numbers in Montgomery form is in Montgomery form. -/
theorem montMul_powers (modulus : n = n0 :: nrest) (inverse : n0i * n0 + 1 = 0)
    (odd : value n % 2 = 1) {a b : List UInt64} {x y : Nat} (sizeA : a.length = n.length)
    (sizeB : b.length = n.length) (reduced : value b < value n)
    (first : value a ≡ x * 2 ^ (64 * n.length) [MOD value n])
    (second : value b ≡ y * 2 ^ (64 * n.length) [MOD value n]) :
    ∃ r, montMul a b n n0i = .ok r ∧ r.length = n.length ∧ value r < value n ∧
      value r ≡ x * y * 2 ^ (64 * n.length) [MOD value n] := by
  obtain ⟨r, runs, size, below, congruent⟩ := montMul_ok modulus inverse sizeA sizeB reduced
  refine ⟨r, runs, size, below, ?_⟩
  refine Nat.ModEq.cancel_left_of_coprime (coprime_width odd (64 * n.length)) ?_
  calc 2 ^ (64 * n.length) * value r ≡ value a * value b [MOD value n] := congruent
    _ ≡ x * 2 ^ (64 * n.length) * (y * 2 ^ (64 * n.length)) [MOD value n] := first.mul second
    _ = 2 ^ (64 * n.length) * (x * y * 2 ^ (64 * n.length)) := by ring

/-- One bit of the exponent. -/
theorem expStep_ok (modulus : n = n0 :: nrest) (inverse : n0i * n0 + 1 = 0)
    (odd : value n % 2 = 1) {aMont : List UInt64} {base e : Nat} (form : Powers n base 1 (some aMont))
    {result : Option (List UInt64)} (before : Powers n base e result) (bit : Bool) :
    ∃ result', expStep aMont n n0i result bit = .ok result' ∧
      Powers n base (2 * e + bit.toNat) result' := by
  obtain ⟨_, sizeA, belowA, formA⟩ := form
  rw [pow_one] at formA
  match result, before with
  | none, before =>
    have zero : e = 0 := before
    subst zero
    cases bit with
    | false => exact ⟨none, rfl, rfl⟩
    | true =>
      refine ⟨some aMont, rfl, Nat.one_pos, sizeA, belowA, ?_⟩
      rw [show 2 * 0 + true.toNat = 1 from rfl, pow_one]
      exact formA
  | some r, ⟨positive, size, below, congruent⟩ =>
    obtain ⟨s, squares, sizeS, belowS, congruentS⟩ :=
      montMul_powers modulus inverse odd size size below congruent congruent
    have square : base ^ e * base ^ e = base ^ (2 * e) := by rw [← pow_add, Nat.two_mul]
    rw [square] at congruentS
    cases bit with
    | false => exact ⟨some s, bind_eq_ok.mpr ⟨s, squares, rfl⟩, by rw [Bool.toNat_false]; omega,
        sizeS, belowS, congruentS⟩
    | true =>
      obtain ⟨m, multiplies, sizeM, belowM, congruentM⟩ :=
        montMul_powers modulus inverse odd sizeS sizeA belowA congruentS formA
      refine ⟨some m, bind_eq_ok.mpr ⟨s, squares, ?_⟩, by rw [Bool.toNat_true]; omega, sizeM,
        belowM, ?_⟩
      · rw [if_pos rfl, multiplies]
        rfl
      · rw [Bool.toNat_true, pow_succ]
        exact congruentM

/-- All bits of the exponent. -/
theorem expSteps_ok (modulus : n = n0 :: nrest) (inverse : n0i * n0 + 1 = 0)
    (odd : value n % 2 = 1) {aMont : List UInt64} {base : Nat}
    (form : Powers n base 1 (some aMont)) (bits : List Bool) :
    ∀ {e : Nat} {result : Option (List UInt64)}, Powers n base e result →
      ∃ result', bits.foldlM (expStep aMont n n0i) result = .ok result' ∧
        Powers n base (exponent e bits) result' := by
  induction bits with
  | nil =>
    intro e result before
    exact ⟨result, rfl, before⟩
  | cons bit bits rest =>
    intro e result before
    obtain ⟨next, steps, between⟩ := expStep_ok modulus inverse odd form before bit
    obtain ⟨result', runs, after⟩ := rest between
    refine ⟨result', ?_, after⟩
    rw [List.foldlM_cons]
    exact bind_eq_ok.mpr ⟨next, steps, runs⟩

end Modulus

/-! ## The whole exponentiation -/

/-- The limbs that a modulus needs. -/
def modulusLimbs (n : List UInt8) : Nat := ((trimZeros n).length + 7) / 8

/-- The buffer that a modulus is read into. -/
def modulusBuffer (n : List UInt8) : List UInt64 := fromBe (trimZeros n) (modulusLimbs n)

theorem length_modulusBuffer (n : List UInt8) : (modulusBuffer n).length = modulusLimbs n := by
  rw [modulusBuffer, fromBe_eq, length_limbsOf]

/-- A modulus fits its buffer. -/
theorem value_modulusBuffer (n : List UInt8) : value (modulusBuffer n) = ofBytes n := by
  rw [modulusBuffer, fromBe_eq, value_limbsOf, ofBytes_trimZeros]
  refine Nat.mod_eq_of_lt (Nat.lt_of_lt_of_le (ofBytes_trimZeros n ▸ ofBytes_lt (trimZeros n)) ?_)
  rw [show (256 : Nat) = 2 ^ 8 from rfl, ← pow_mul, modulusLimbs]
  exact Nat.pow_le_pow_right (by decide) (by omega)

theorem value_one {k : Nat} (positive : 0 < k) :
    ((List.replicate k (0 : UInt64)).set 0 1).length = k ∧
      value ((List.replicate k 0).set 0 1) = 1 := by
  obtain ⟨k, rfl⟩ := Nat.exists_eq_succ_of_ne_zero (Nat.ne_of_gt positive)
  refine ⟨by simp, ?_⟩
  rw [List.replicate_succ, List.set_cons_zero, value_cons, value_replicate_zero]
  rfl

/-- The first limb of an odd modulus, and its inverse. -/
theorem modulusBuffer_cons {n : List UInt8} (odd : ofBytes n % 2 = 1) :
    ∃ n0 nrest, modulusBuffer n = n0 :: nrest ∧ n0 &&& 1 ≠ 0 ∧ n0inv n0 * n0 + 1 = 0 := by
  have held := value_modulusBuffer n
  match buffer : modulusBuffer n with
  | [] =>
    rw [buffer, value_nil] at held
    omega
  | n0 :: nrest =>
    have low : n0 &&& 1 ≠ 0 := by
      intro even
      have bit := congrArg UInt64.toNat even
      have mask : n0.toNat &&& (1 : UInt64).toNat = n0.toNat % 2 := Nat.and_one_is_mod _
      rw [UInt64.toNat_and, mask, UInt64.toNat_zero] at bit
      rw [buffer, value_cons] at held
      omega
    exact ⟨n0, nrest, rfl, low, n0inv_mul low⟩

/-- The base after the one subtraction: it has the modulus' limbs and is the base modulo it. -/
theorem baseLimbs_ok {n base : List UInt64} (size : base.length = n.length) :
    ∃ b, (do
        let big ← ge base n
        if big then subAssign base n else pure base) = Except.ok (ε := Stop) b ∧
      b.length = n.length ∧ value b ≡ value base [MOD value n] := by
  rw [ge_ok size]
  by_cases least : value n ≤ value base
  · have limit := value_lt base
    obtain ⟨b, runs, size', total⟩ := @subAssign_ok base n size 0 (by omega) (by omega)
    refine ⟨b, ?_, size'.trans size, ?_⟩
    · rw [decide_eq_true least]
      exact runs
    · rw [Nat.mul_zero, Nat.add_zero] at total
      rw [← total]
      exact (Nat.add_mod_right _ _).symm
  · refine ⟨base, ?_, size, rfl⟩
    rw [decide_eq_false least]
    rfl

/-- The exponentiation from what each of its parts returns. -/
theorem modExp_of_steps {n base exp out : List UInt8} {n0 : UInt64}
    {nrest rr b aMont : List UInt64} {result : Option (List UInt64)} (positive : 0 < modulusLimbs n)
    (modulus : modulusBuffer n = n0 :: nrest) (low : n0 &&& 1 ≠ 0)
    (doublings : (List.range (128 * modulusLimbs n)).foldlM (fun r _ => double (modulusBuffer n) r)
      ((List.replicate (modulusLimbs n) 0).set 0 1) = .ok rr)
    (subtracts : (do
      let big ← ge (fromBe base (modulusLimbs n)) (modulusBuffer n)
      if big then subAssign (fromBe base (modulusLimbs n)) (modulusBuffer n)
      else pure (fromBe base (modulusLimbs n))) = Except.ok (ε := Stop) b)
    (multiplies : montMul b rr (modulusBuffer n) (n0inv n0) = .ok aMont)
    (last : (match result with
      | none => pure (toBe ((List.replicate (modulusLimbs n) 0).set 0 1))
      | some r => do
        let r ← montMul r ((List.replicate (modulusLimbs n) 0).set 0 1) (modulusBuffer n) (n0inv n0)
        pure (toBe r) : Checked (List UInt8)) = .ok out)
    (steps : (exp.flatMap bitsOf).foldlM (expStep aMont (modulusBuffer n) (n0inv n0)) none =
      .ok result) : modExp base exp n = .ok out := by
  have first : index (modulusBuffer n) 0 = .ok n0 := index_eq_ok.mpr (by rw [modulus]; rfl)
  rw [modExp]
  dsimp only
  rw [if_neg (show ¬ ((trimZeros n).length + 7) / 8 = 0 from Nat.ne_of_gt positive)]
  refine bind_eq_ok.mpr ⟨n0, first, ?_⟩
  rw [if_neg low]
  refine bind_eq_ok.mpr ⟨rr, doublings, ?_⟩
  obtain ⟨big, compares, subtracts'⟩ := bind_eq_ok.mp subtracts
  refine bind_eq_ok.mpr ⟨big, compares, bind_eq_ok.mpr ⟨b, subtracts', ?_⟩⟩
  refine bind_eq_ok.mpr ⟨aMont, multiplies, ?_⟩
  exact bind_eq_ok.mpr ⟨result, steps, last⟩

/-- What is computed, whatever the length of the base. -/
theorem modExp_ok {n : List UInt8} (odd : ofBytes n % 2 = 1) (more : 1 < ofBytes n)
    (base exp : List UInt8) :
    ∃ out, modExp base exp n = .ok out ∧ out.length = 8 * modulusLimbs n ∧
      ofBytes out = (ofBytes base % 2 ^ (64 * modulusLimbs n)) ^ ofBytes exp % ofBytes n := by
  obtain ⟨n0, nrest, modulus, low, inverse⟩ := modulusBuffer_cons odd
  have held := value_modulusBuffer n
  have size := length_modulusBuffer n
  have positive : 0 < modulusLimbs n := by rw [← size, modulus]; exact Nat.succ_pos _
  have odd' : value (modulusBuffer n) % 2 = 1 := held ▸ odd
  obtain ⟨sizeOne, one⟩ := value_one positive
  obtain ⟨rr, doublings, sizeRr, belowRr, congruentRr⟩ :=
    @doubles_ok (modulusBuffer n) (List.range (128 * modulusLimbs n)) _ (sizeOne.trans size.symm)
      (by rw [one, held]; exact more)
  have sizeBase : (fromBe base (modulusLimbs n)).length = (modulusBuffer n).length := by
    rw [fromBe_eq, length_limbsOf, size]
  obtain ⟨b, subtracts, sizeB, congruentB⟩ := baseLimbs_ok sizeBase
  rw [fromBe_eq, value_limbsOf] at congruentB
  rw [one, List.length_range, Nat.mul_one] at congruentRr
  have squareWidth : (2 : Nat) ^ (128 * modulusLimbs n) =
      2 ^ (64 * (modulusBuffer n).length) * 2 ^ (64 * (modulusBuffer n).length) := by
    rw [← pow_add, size]
    congr 1
    omega
  obtain ⟨aMont, multiplies, sizeA, belowA, congruentA⟩ :=
    montMul_ok modulus inverse sizeB sizeRr belowRr
  have form : Powers (modulusBuffer n) (ofBytes base % 2 ^ (64 * modulusLimbs n)) 1 (some aMont) := by
    refine ⟨Nat.one_pos, sizeA, belowA, ?_⟩
    refine Nat.ModEq.cancel_left_of_coprime
      (coprime_width odd' (64 * (modulusBuffer n).length)) ?_
    calc 2 ^ (64 * (modulusBuffer n).length) * value aMont
        ≡ value b * value rr [MOD value (modulusBuffer n)] := congruentA
      _ ≡ ofBytes base % 2 ^ (64 * modulusLimbs n) * 2 ^ (128 * modulusLimbs n)
          [MOD value (modulusBuffer n)] := congruentB.mul congruentRr
      _ = 2 ^ (64 * (modulusBuffer n).length) *
          ((ofBytes base % 2 ^ (64 * modulusLimbs n)) ^ 1 *
            2 ^ (64 * (modulusBuffer n).length)) := by
        rw [squareWidth, pow_one]
        ring
  obtain ⟨result, steps, powers⟩ :=
    @expSteps_ok (modulusBuffer n) (n0inv n0) n0 nrest modulus inverse odd' aMont _ form
      (exp.flatMap bitsOf) 0 none rfl
  rw [exponent_bytes, Nat.mul_zero, Nat.zero_add] at powers
  match result, powers, steps with
  | none, powers, steps =>
    have zero : ofBytes exp = 0 := powers
    obtain ⟨sizeOut, valueOut⟩ := toBe_spec ((List.replicate (modulusLimbs n) (0 : UInt64)).set 0 1)
    refine ⟨_, modExp_of_steps positive modulus low doublings subtracts multiplies rfl steps,
      by rw [sizeOut, sizeOne], ?_⟩
    rw [valueOut, one, zero, pow_zero, Nat.mod_eq_of_lt more]
  | some r, ⟨_, sizeR, belowR, congruentR⟩, steps =>
    obtain ⟨r', leaves, sizeR', belowR', congruentR'⟩ :=
      montMul_ok modulus inverse sizeR (sizeOne.trans size.symm) (by rw [one, held]; exact more)
    obtain ⟨sizeOut, valueOut⟩ := toBe_spec r'
    refine ⟨_, modExp_of_steps positive modulus low doublings subtracts multiplies
      (by exact bind_eq_ok.mpr ⟨r', leaves, rfl⟩) steps, by rw [sizeOut, sizeR', size], ?_⟩
    have congruent : value r' ≡
        (ofBytes base % 2 ^ (64 * modulusLimbs n)) ^ ofBytes exp [MOD value (modulusBuffer n)] := by
      refine Nat.ModEq.cancel_left_of_coprime
        (coprime_width odd' (64 * (modulusBuffer n).length)) ?_
      calc 2 ^ (64 * (modulusBuffer n).length) * value r'
          ≡ value r * value ((List.replicate (modulusLimbs n) 0).set 0 1)
            [MOD value (modulusBuffer n)] := congruentR'
        _ = value r := by rw [one, Nat.mul_one]
        _ ≡ (ofBytes base % 2 ^ (64 * modulusLimbs n)) ^ ofBytes exp *
            2 ^ (64 * (modulusBuffer n).length) [MOD value (modulusBuffer n)] := congruentR
        _ = _ := Nat.mul_comm _ _
    rw [valueOut, ← held, ← congruent, Nat.mod_eq_of_lt belowR']

/-- Square and multiply never faults, and keeps the length of the result. -/
theorem expSteps_total {n : List UInt64} {n0i n0 : UInt64} {nrest : List UInt64}
    (modulus : n = n0 :: nrest) (inverse : n0i * n0 + 1 = 0) {aMont : List UInt64}
    (sizeA : aMont.length = n.length) (bits : List Bool) :
    ∀ {result : Option (List UInt64)}, (∀ r ∈ result, r.length = n.length) →
      ∃ result', bits.foldlM (expStep aMont n n0i) result = .ok result' ∧
        ∀ r ∈ result', r.length = n.length := by
  induction bits with
  | nil =>
    intro result sized
    exact ⟨result, rfl, sized⟩
  | cons bit bits rest =>
    intro result sized
    have step : ∃ next, expStep aMont n n0i result bit = .ok next ∧
        ∀ r ∈ next, r.length = n.length := by
      match result, sized with
      | none, _ =>
        refine ⟨_, rfl, fun r member => ?_⟩
        cases bit with
        | false => exact nomatch member
        | true => exact Option.some.inj member ▸ sizeA
      | some r, sized =>
        have sizeR := sized r rfl
        obtain ⟨s, squares, sizeS⟩ := montMul_total modulus inverse sizeR sizeR
        cases bit with
        | false =>
          exact ⟨some s, bind_eq_ok.mpr ⟨s, squares, rfl⟩,
            fun x member => Option.some.inj member ▸ sizeS⟩
        | true =>
          obtain ⟨m, multiplies, sizeM⟩ := montMul_total modulus inverse sizeS sizeA
          refine ⟨some m, bind_eq_ok.mpr ⟨s, squares, ?_⟩,
            fun x member => Option.some.inj member ▸ sizeM⟩
          rw [if_pos rfl, multiplies]
          rfl
    obtain ⟨next, steps, sizeNext⟩ := step
    obtain ⟨result', runs, sizeLast⟩ := rest sizeNext
    refine ⟨result', ?_, sizeLast⟩
    rw [List.foldlM_cons]
    exact bind_eq_ok.mpr ⟨next, steps, runs⟩

/-- Doubling never faults. -/
theorem doubles_total {n : List UInt64} (times : List Nat) :
    ∀ {a : List UInt64}, a.length = n.length →
      ∃ r, times.foldlM (fun r _ => double n r) a = .ok r ∧ r.length = n.length := by
  induction times with
  | nil =>
    intro a size
    exact ⟨a, rfl, size⟩
  | cons _ times rest =>
    intro a size
    obtain ⟨size', _⟩ := @shl1_spec a 0 (Nat.zero_le 1)
    obtain ⟨b, runs, sizeB⟩ := condSubtract_total (size'.trans size) (shl1 0 a).2
    obtain ⟨r, runs', sizeR⟩ := rest sizeB
    refine ⟨r, ?_, sizeR⟩
    rw [List.foldlM_cons]
    exact bind_eq_ok.mpr ⟨b, runs, runs'⟩

/-- For every odd modulus, one included, bytes are returned, as many as its buffer has. -/
theorem modExp_total {n : List UInt8} (odd : ofBytes n % 2 = 1) (base exp : List UInt8) :
    ∃ out, modExp base exp n = .ok out ∧ out.length = 8 * modulusLimbs n := by
  obtain ⟨n0, nrest, modulus, low, inverse⟩ := modulusBuffer_cons odd
  have size := length_modulusBuffer n
  have positive : 0 < modulusLimbs n := by rw [← size, modulus]; exact Nat.succ_pos _
  obtain ⟨sizeOne, _⟩ := value_one positive
  obtain ⟨rr, doublings, sizeRr⟩ :=
    @doubles_total (modulusBuffer n) (List.range (128 * modulusLimbs n)) _ (sizeOne.trans size.symm)
  have sizeBase : (fromBe base (modulusLimbs n)).length = (modulusBuffer n).length := by
    rw [fromBe_eq, length_limbsOf, size]
  obtain ⟨b, subtracts, sizeB, _⟩ := baseLimbs_ok sizeBase
  obtain ⟨aMont, multiplies, sizeA⟩ := montMul_total modulus inverse sizeB sizeRr
  obtain ⟨result, steps, sized⟩ := @expSteps_total (modulusBuffer n) (n0inv n0) n0 nrest modulus
    inverse aMont sizeA (exp.flatMap bitsOf) none (fun _ member => nomatch member)
  match result, sized, steps with
  | none, _, steps =>
    exact ⟨_, modExp_of_steps positive modulus low doublings subtracts multiplies rfl steps,
      by rw [(toBe_spec _).1, sizeOne]⟩
  | some r, sized, steps =>
    obtain ⟨r', leaves, sizeR'⟩ :=
      montMul_total modulus inverse (sized r rfl) (sizeOne.trans size.symm)
    exact ⟨_, modExp_of_steps positive modulus low doublings subtracts multiplies
      (by exact bind_eq_ok.mpr ⟨r', leaves, rfl⟩) steps, by rw [(toBe_spec _).1, sizeR', size]⟩

/-- **Modular exponentiation is exact**: for an odd modulus above one, every base that fits the
modulus' buffer, below the modulus or not, and every exponent, nothing overflows and the bytes
returned, as many as the buffer has, say `base ^ exp mod n`, which is below the modulus. Every
Montgomery product with a multiplier below the modulus stays below it. -/
theorem modExp_exact {n : List UInt8} (odd : ofBytes n % 2 = 1) (more : 1 < ofBytes n)
    {base : List UInt8} (fits : base.length ≤ 8 * modulusLimbs n) (exp : List UInt8) :
    (∃ out, modExp base exp n = .ok out ∧ out.length = 8 * modulusLimbs n ∧
      ofBytes out = ofBytes base ^ ofBytes exp % ofBytes n ∧ ofBytes out < ofBytes n) ∧
    ∀ a b : List UInt64, a.length = modulusLimbs n → b.length = modulusLimbs n →
      value b < ofBytes n →
        ∃ r, montMul a b (modulusBuffer n) (n0inv ((modulusBuffer n).headD 0)) = .ok r ∧
          r.length = modulusLimbs n ∧ value r < ofBytes n ∧
            2 ^ (64 * modulusLimbs n) * value r ≡ value a * value b [MOD ofBytes n] := by
  refine ⟨?_, ?_⟩
  · obtain ⟨out, runs, size, power⟩ := modExp_ok odd more base exp
    have small : ofBytes base < 2 ^ (64 * modulusLimbs n) := by
      refine Nat.lt_of_lt_of_le (ofBytes_lt base) ?_
      rw [show (256 : Nat) = 2 ^ 8 from rfl, ← pow_mul]
      exact Nat.pow_le_pow_right (by decide) (by omega)
    rw [Nat.mod_eq_of_lt small] at power
    exact ⟨out, runs, size, power, power ▸ Nat.mod_lt _ (by omega)⟩
  · intro a b sizeA sizeB reduced
    obtain ⟨n0, nrest, modulus, _, inverse⟩ := modulusBuffer_cons odd
    have held := value_modulusBuffer n
    have size := length_modulusBuffer n
    have head : (modulusBuffer n).headD 0 = n0 := by rw [modulus]; rfl
    rw [head, ← held, ← size]
    rw [← held] at reduced
    exact montMul_ok modulus inverse (sizeA.trans size.symm) (sizeB.trans size.symm) reduced

/-- A base above a small modulus, cubed. -/
theorem modExp_exact_three :
    (∃ out, modExp [0xff] [3] [7] = .ok out ∧ out.length = 8 ∧ ofBytes out = 255 ^ 3 % 7 ∧
      ofBytes out < 7) ∧
    ∀ a b : List UInt64, a.length = 1 → b.length = 1 → value b < 7 →
      ∃ r, montMul a b (modulusBuffer [7]) (n0inv ((modulusBuffer [7]).headD 0)) = .ok r ∧
        r.length = 1 ∧ value r < 7 ∧ 2 ^ 64 * value r ≡ value a * value b [MOD 7] :=
  modExp_exact (n := [7]) (by decide) (by decide) (by decide) [3]

end RustyPenguin.Crypto
