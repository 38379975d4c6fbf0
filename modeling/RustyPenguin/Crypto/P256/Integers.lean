import RustyPenguin.Crypto.P256

/-!
# The integers of four limbs

What the carries and borrows of the 256-bit integers compute: `val a` is the number that the
four limbs of `a` hold, and the additions, subtractions and conditional subtractions are those
of numbers modulo `2^256`, with the carry or borrow beside them.
-/

set_option autoImplicit false

namespace RustyPenguin.Crypto.P256

open Positions

/-- The number that four limbs hold. -/
def val (a : U256) : Nat :=
  (getElem a 0 zero4).toNat + 2 ^ 64 * (getElem a 1 one4).toNat +
    2 ^ 128 * (getElem a 2 two4).toNat + 2 ^ 192 * (getElem a 3 three4).toNat

theorem val_mk (x0 x1 x2 x3 : UInt64) : val #v[x0, x1, x2, x3] =
    x0.toNat + 2 ^ 64 * x1.toNat + 2 ^ 128 * x2.toNat + 2 ^ 192 * x3.toNat := rfl

theorem val_lt (a : U256) : val a < 2 ^ 256 := by
  have h0 := a[0].toNat_lt
  have h1 := a[1].toNat_lt
  have h2 := a[2].toNat_lt
  have h3 := a[3].toNat_lt
  rw [val]
  omega

/-- Limbs that hold the same number are the same. -/
theorem val_injective {a b : U256} (same : val a = val b) : a = b := by
  have a0 := a[0].toNat_lt
  have a1 := a[1].toNat_lt
  have a2 := a[2].toNat_lt
  have a3 := a[3].toNat_lt
  have b0 := b[0].toNat_lt
  have b1 := b[1].toNat_lt
  have b2 := b[2].toNat_lt
  have b3 := b[3].toNat_lt
  rw [val, val] at same
  refine Vector.ext fun i inside => UInt64.toNat_inj.mp ?_
  match i, inside with
  | 0, _ => omega
  | 1, _ => omega
  | 2, _ => omega
  | 3, _ => omega

/-- The limbs of a number. -/
def ofNat256 (v : Nat) : U256 :=
  #v[UInt64.ofNat v, UInt64.ofNat (v / 2 ^ 64), UInt64.ofNat (v / 2 ^ 128),
    UInt64.ofNat (v / 2 ^ 192)]

theorem val_ofNat256 {v : Nat} (fits : v < 2 ^ 256) : val (ofNat256 v) = v := by
  rw [ofNat256, val_mk]
  simp only [UInt64.toNat_ofNat']
  omega

theorem isZero_iff (a : U256) : isZero a = true ↔ val a = 0 := by
  have zero : ∀ x : UInt64, x = 0 ↔ x.toNat = 0 := fun x => UInt64.toNat_inj.symm
  simp only [isZero, val, Bool.and_eq_true, beq_iff_eq, zero]
  omega

/-! ## Carries and borrows -/

theorem add256c_spec (a b : U256) :
    val (add256c a b).1 + 2 ^ 256 * (add256c a b).2.toNat = val a + val b := by
  have a0 := a[0].toNat_lt
  have a1 := a[1].toNat_lt
  have a2 := a[2].toNat_lt
  have a3 := a[3].toNat_lt
  have b0 := b[0].toNat_lt
  have b1 := b[1].toNat_lt
  have b2 := b[2].toNat_lt
  have b3 := b[3].toNat_lt
  rw [add256c]
  dsimp only
  rw [val_mk, val, val]
  simp only [UInt64.toNat_ofNat', Nat.shiftRight_eq_div_pow]
  generalize s0 : a[0].toNat + b[0].toNat = x0
  generalize s1 : a[1].toNat + b[1].toNat + x0 / 2 ^ 64 = x1
  generalize s2 : a[2].toNat + b[2].toNat + x1 / 2 ^ 64 = x2
  generalize s3 : a[3].toNat + b[3].toNat + x2 / 2 ^ 64 = x3
  have carry : (x3 / 2 ^ 64 != 0).toNat = x3 / 2 ^ 64 := by
    have small : x3 / 2 ^ 64 = 0 ∨ x3 / 2 ^ 64 = 1 := by omega
    rcases small with zero | one
    · rw [zero]
      rfl
    · rw [one]
      rfl
  rw [carry]
  omega

theorem toNat_ofInt (x : Int) : ((UInt64.ofInt x).toNat : Int) = x % 2 ^ 64 := by
  have positive := Int.emod_nonneg x (by decide : (2 ^ 64 : Int) ≠ 0)
  have small := Int.emod_lt_of_pos x (by decide : (0 : Int) < 2 ^ 64)
  rw [UInt64.ofInt, UInt64.toNat_ofNat', Nat.mod_eq_of_lt (by omega)]
  exact Int.toNat_of_nonneg positive

theorem sub256b_spec (a b : U256) :
    val (sub256b a b).1 + val b = val a + 2 ^ 256 * (sub256b a b).2.toNat := by
  have a0 := a[0].toNat_lt
  have a1 := a[1].toNat_lt
  have a2 := a[2].toNat_lt
  have a3 := a[3].toNat_lt
  have b0 := b[0].toNat_lt
  have b1 := b[1].toNat_lt
  have b2 := b[2].toNat_lt
  have b3 := b[3].toNat_lt
  rw [sub256b]
  dsimp only
  rw [val_mk, val, val]
  generalize s0 : (a[0].toNat : Int) - b[0].toNat = x0
  generalize s1 : (a[1].toNat : Int) - b[1].toNat - borrow x0 = x1
  generalize s2 : (a[2].toNat : Int) - b[2].toNat - borrow x1 = x2
  generalize s3 : (a[3].toNat : Int) - b[3].toNat - borrow x2 = x3
  have borrows : ∀ x : Int, -2 ^ 64 ≤ x → x < 2 ^ 64 → x % 2 ^ 64 = x + 2 ^ 64 * borrow x ∧
      (borrow x = 0 ∨ borrow x = 1) := by
    intro x least most
    rw [borrow]
    split
    · exact ⟨by omega, Or.inr rfl⟩
    · exact ⟨by omega, Or.inl rfl⟩
  obtain ⟨r0, z0⟩ := borrows x0 (by omega) (by omega)
  obtain ⟨r1, z1⟩ := borrows x1 (by omega) (by omega)
  obtain ⟨r2, z2⟩ := borrows x2 (by omega) (by omega)
  obtain ⟨r3, z3⟩ := borrows x3 (by omega) (by omega)
  have out : ((borrow x3 != 0).toNat : Int) = borrow x3 := by
    rcases z3 with zero | one
    · rw [zero]
      rfl
    · rw [one]
      rfl
  have t0 := toNat_ofInt x0
  have t1 := toNat_ofInt x1
  have t2 := toNat_ofInt x2
  have t3 := toNat_ofInt x3
  omega

/-- Subtraction that borrows just when it has to. -/
theorem sub256b_borrow (a b : U256) : (sub256b a b).2 = decide (val a < val b) := by
  have spec := sub256b_spec a b
  have below := val_lt (sub256b a b).1
  have belowA := val_lt a
  cases borrowed : (sub256b a b).2 with
  | false =>
    rw [borrowed, Bool.toNat_false] at spec
    exact (decide_eq_false (by omega)).symm
  | true =>
    rw [borrowed, Bool.toNat_true] at spec
    exact (decide_eq_true (by omega)).symm

theorem condSub_spec (a m : U256) :
    val (condSub a m) = if val a < val m then val a else val a - val m := by
  have spec := sub256b_spec a m
  rw [condSub]
  dsimp only
  rw [sub256b_borrow] at spec ⊢
  by_cases less : val a < val m
  · rw [decide_eq_true less, if_pos rfl, if_pos less]
  · rw [decide_eq_false less, Bool.toNat_false] at spec
    rw [decide_eq_false less, if_neg (by decide), if_neg less]
    omega

theorem lt256_iff (a b : U256) : lt256 a b = decide (val a < val b) := by
  have a0 := a[0].toNat_lt
  have a1 := a[1].toNat_lt
  have a2 := a[2].toNat_lt
  have b0 := b[0].toNat_lt
  have b1 := b[1].toNat_lt
  have b2 := b[2].toNat_lt
  rw [lt256, val, val]
  simp only [ne_eq, ← UInt64.toNat_inj, UInt64.lt_iff_toNat_lt]
  split
  · exact decide_eq_decide.mpr (by omega)
  split
  · exact decide_eq_decide.mpr (by omega)
  split
  · exact decide_eq_decide.mpr (by omega)
  · exact decide_eq_decide.mpr (by omega)

/-! ## Bits -/

theorem testBit_val (a : U256) (i : Fin 4) {k : Nat} (inside : k < 64) :
    (val a).testBit (64 * i.val + k) = a[i].toNat.testBit k := by
  have a0 := a[0].toNat_lt
  have a1 := a[1].toNat_lt
  have a2 := a[2].toNat_lt
  have a3 := a[3].toNat_lt
  have limb : val a / 2 ^ (64 * i.val) % 2 ^ 64 = a[i].toNat := by
    match i with
    | 0 =>
      show val a / 2 ^ 0 % 2 ^ 64 = a[0].toNat
      rw [val]
      omega
    | 1 =>
      show val a / 2 ^ 64 % 2 ^ 64 = a[1].toNat
      rw [val]
      omega
    | 2 =>
      show val a / 2 ^ 128 % 2 ^ 64 = a[2].toNat
      rw [val]
      omega
    | 3 =>
      show val a / 2 ^ 192 % 2 ^ 64 = a[3].toNat
      rw [val]
      omega
  rw [← limb, Nat.testBit_mod_two_pow, decide_eq_true inside, Bool.true_and, Nat.testBit_div_two_pow,
    Nat.add_comm]

/-- The bits of the limbs are the bits of the number. -/
theorem bitsLe_eq (a : U256) : bitsLe a = (List.range 256).map (val a).testBit := by
  have quarter : ∀ i : Fin 4, (List.range 64).map (fun k => a[i].toNat.testBit k) =
      ((List.range 64).map (64 * i.val + ·)).map (val a).testBit := by
    intro i
    rw [List.map_map]
    refine List.map_congr_left fun k member => ?_
    exact (testBit_val a i (List.mem_range.mp member)).symm
  have positions : List.range 256 = (List.finRange 4).flatMap
      fun i => (List.range 64).map (64 * i.val + ·) := by
    have split : (256 : Nat) = 64 + (64 + (64 + 64)) := rfl
    have four : List.finRange 4 = [0, 1, 2, 3] := by decide
    rw [four, split, List.range_add, List.range_add, List.range_add]
    simp [List.map_map, Function.comp_def, ← Nat.add_assoc] <;> exact fun _ _ => rfl
  rw [bitsLe, positions, List.map_flatMap]
  exact List.flatMap_congr fun i _ => quarter i

@[simp] theorem length_bitsLe (a : U256) : (bitsLe a).length = 256 := by
  rw [bitsLe_eq, List.length_map, List.length_range]

theorem take_succ_bitsLe (a : U256) {i : Nat} (inside : i < 256) :
    (bitsLe a).take (i + 1) = (bitsLe a).take i ++ [(val a).testBit i] := by
  rw [List.take_succ_eq_append_getElem (by rw [length_bitsLe]; exact inside)]
  simp only [bitsLe_eq, List.getElem_map, List.getElem_range]

end RustyPenguin.Crypto.P256
