import RustyPenguin.Crypto.X25519.Ladder

/-!
# Packing a field element

Three passes of carries leave reduced limbs, since the limbs that a product leaves hold a number
at most 38 out of range: the first pass brings it into range and the other two find nothing to
carry. Subtracting the prime twice, each time only if nothing is borrowed in the end, leaves the
least residue, whose digits are the bytes.
-/

set_option autoImplicit false

namespace RustyPenguin.Crypto

open Weights Positions

/-- Limbs that hold sixteen bits each. -/
def Reduced (o : Gf) : Prop := ∀ k, 0 ≤ limb o k ∧ limb o k < 2 ^ 16

theorem Reduced.bounds {o : Gf} (reduced : Reduced o) : 0 ≤ value o ∧ value o < 2 ^ 256 := by
  have whole : ((2 : ℤ) ^ 16) ^ 16 = 2 ^ 256 := by norm_num
  exact whole ▸ weigh_bounds reduced

/-! ## Carries -/

theorem car25519_settled {o : Gf} (settled : Settled o) :
    Checked25519.car25519 o = .ok (car25519 o) ∧ Reduced (car25519 o) ∧
      element (car25519 o) = element o := by
  obtain ⟨runs, after, rest, first⟩ := car25519_spec (o := o) fun k => by
    have := settled.within k
    omega
  obtain ⟨low, high⟩ := settled.first
  obtain ⟨least, most⟩ := weigh_bounds (f := fun k : Fin 15 => limb o k.succ) fun k =>
    settled.rest k.succ (Fin.succ_ne_zero k)
  have split : value o = limb o 0 + 2 ^ 16 * weigh (2 ^ 16) fun k : Fin 15 => limb o k.succ :=
    weigh_succ _ _
  generalize weigh (2 ^ 16) (fun k : Fin 15 => limb o k.succ) = upper at *
  refine ⟨runs, fun k => ?_, ?_⟩
  · by_cases zero : k = 0
    · rw [zero, first]
      omega
    · exact rest k zero
  · have modulus : ((2 ^ 256 - 38 : ℤ) : Field25519) = 0 := by
      refine (ZMod.intCast_zmod_eq_zero_iff_dvd _ _).mpr ⟨2, ?_⟩
      rw [prime25519]
      norm_num
    rw [element, after, Int.cast_sub, Int.cast_mul, modulus, zero_mul, sub_zero]
    rfl

theorem car25519_reduced {o : Gf} (reduced : Reduced o) :
    Checked25519.car25519 o = .ok (car25519 o) ∧ Reduced (car25519 o) ∧
      value (car25519 o) = value o := by
  obtain ⟨runs, after, rest, first⟩ := car25519_spec (o := o) fun k => by
    have := reduced k
    omega
  obtain ⟨least, most⟩ := reduced.bounds
  have none : value o / 2 ^ 256 = 0 := Int.ediv_eq_zero_of_lt least most
  refine ⟨runs, fun k => ?_, by rw [after, none]; omega⟩
  by_cases zero : k = 0
  · rw [zero, first, none]
    omega
  · exact rest k zero

/-! ## Subtracting the prime -/

/-- The limbs of the prime. -/
def primeLimb (k : Fin 16) : ℤ :=
  if k = ⟨0, zero16⟩ then 0xffed else if k = ⟨15, fifteen16⟩ then 0x7fff else 0xffff

theorem weigh_primeLimb : weigh (2 ^ 16) primeLimb = prime25519 := by decide

theorem toInt_borrow {x : Int64} (low : -2 ^ 16 ≤ x.toInt) (high : x.toInt < 2 ^ 16) :
    (borrow x).toInt = -(x.toInt / 2 ^ 16) := by
  rw [borrow, Word.toInt_and_one, Word.toInt_shr16 rfl]
  omega

/-- The limbs of the difference up to a limb, those below it reduced. -/
structure Differs (t : Gf) (k : Nat) (m : Gf) : Prop where
  below : ∀ j, j.val < k → 0 ≤ limb m j ∧ limb m j < 2 ^ 16
  here : ∀ j, j.val = k → -2 ^ 16 ≤ limb m j ∧ limb m j < 2 ^ 16
  above : ∀ j, k < j.val → limb m j = 0
  sum : value m = weigh (2 ^ 16) (upTo (k + 1) fun j => limb t j - primeLimb j)

theorem primeLimb_bounds (k : Fin 16) : 0 ≤ primeLimb k ∧ primeLimb k < 2 ^ 16 := by
  rw [primeLimb]
  split_ifs <;> omega

/-- One limb of the difference, and the limb below it reduced. -/
def subtractLimb (t m : Gf) (c : Int64) (k : Nat) (inside : k < 15) : Gf :=
  let m := m.set (k + 1) (t[k + 1] - c - borrow m[k])
  m.set k (m[k] &&& 0xffff)

theorem subtractLimb_spec {t m : Gf} (reduced : Reduced t) {k : Nat} (inside : k < 15) {c : Int64}
    (constant : c.toInt = primeLimb ⟨k + 1, by omega⟩) (differs : Differs t k m) :
    Word.sub t[k + 1] c = .ok (t[k + 1] - c) ∧
      Word.sub (t[k + 1] - c) (borrow m[k]) = .ok (t[k + 1] - c - borrow m[k]) ∧
      Differs t (k + 1) (subtractLimb t m c k inside) := by
  obtain ⟨low, high⟩ := differs.here ⟨k, by omega⟩ rfl
  have next := reduced ⟨k + 1, by omega⟩
  have prime := primeLimb_bounds ⟨k + 1, by omega⟩
  have borrowed : (borrow m[k]).toInt = -(limb m ⟨k, by omega⟩ / 2 ^ 16) := toInt_borrow low high
  obtain ⟨first, difference⟩ := Word.sub_spec (a := t[k + 1])
    (x := limb t ⟨k + 1, by omega⟩) rfl constant ⟨by omega, by omega⟩
  obtain ⟨second, lowered⟩ := Word.sub_spec difference borrowed ⟨by omega, by omega⟩
  have limbs : limb (subtractLimb t m c k inside) = Function.update (Function.update (limb m)
      ⟨k + 1, by omega⟩ (limb t ⟨k + 1, by omega⟩ - primeLimb ⟨k + 1, by omega⟩ +
        limb m ⟨k, by omega⟩ / 2 ^ 16)) ⟨k, by omega⟩ (limb m ⟨k, by omega⟩ % 2 ^ 16) := by
    have same : (m.set (k + 1) (t[k + 1] - c - borrow m[k]))[k] = m[k] :=
      Vector.getElem_set_ne _ _ (by omega)
    have upper : ∀ x : Int64, limb (m.set (k + 1) x) =
        Function.update (limb m) ⟨k + 1, by omega⟩ x.toInt := fun x =>
      limb_set m ⟨k + 1, by omega⟩ x
    have lower : ∀ (o : Gf) (x : Int64), limb (o.set k x) =
        Function.update (limb o) ⟨k, by omega⟩ x.toInt := fun o x => limb_set o ⟨k, by omega⟩ x
    rw [subtractLimb, lower, upper, same, Word.toInt_and_ffff, lowered, sub_neg_eq_add]
    rfl
  have apart : (⟨k + 1, by omega⟩ : Fin 16) ≠ ⟨k, by omega⟩ := fun same => by
    have := congrArg Fin.val same
    exact absurd this (by simp)
  refine ⟨first, second, ⟨fun j below => ?_, fun j here => ?_, fun j above => ?_, ?_⟩⟩
  · rw [limbs]
    by_cases self : j.val = k
    · rw [show j = ⟨k, by omega⟩ from Fin.ext self, Function.update_self]
      exact ⟨Int.emod_nonneg _ (by decide), Int.emod_lt_of_pos _ (by decide)⟩
    · rw [Function.update_of_ne (fun same => self (congrArg Fin.val same)),
        Function.update_of_ne (fun same => absurd (congrArg Fin.val same) (by simp; omega))]
      exact differs.below j (by omega)
  · rw [limbs, show j = ⟨k + 1, by omega⟩ from Fin.ext here, Function.update_of_ne apart,
      Function.update_self]
    omega
  · rw [limbs, Function.update_of_ne (fun same => absurd (congrArg Fin.val same) (by simp; omega)),
      Function.update_of_ne (fun same => absurd (congrArg Fin.val same) (by simp; omega))]
    exact differs.above j (by omega)
  · have zero := differs.above ⟨k + 1, by omega⟩ (Nat.lt_succ_self k)
    have division := Int.emod_add_mul_ediv (limb m ⟨k, by omega⟩) (2 ^ 16)
    rw [value, limbs, weigh_update, weigh_update, Function.update_of_ne apart.symm, zero,
      weigh_upTo_succ _ _ ⟨k + 1, by omega⟩, ← differs.sum, value]
    show _ + (_ + _ / _ - 0) * (2 ^ 16) ^ (k + 1) + _ * (2 ^ 16) ^ k = _
    rw [pow_succ _ k]
    linear_combination (2 ^ 16) ^ k * division

theorem differs_start {t : Gf} (reduced : Reduced t) :
    Word.sub (getElem t 0 zero16) 0xffed = .ok (getElem t 0 zero16 - 0xffed) ∧
      Differs t 0 (gf0.set 0 (getElem t 0 zero16 - 0xffed) zero16) := by
  have first := reduced 0
  obtain ⟨runs, difference⟩ := Word.sub_spec (a := t[0]) (b := 0xffed) (x := limb t 0)
    (y := 0xffed) rfl rfl ⟨by omega, by omega⟩
  have zero : limb gf0 = fun _ => 0 := funext fun k => by simp [limb, gf0]
  have limbs : limb (gf0.set 0 (t[0] - 0xffed)) =
      Function.update (fun _ => 0) 0 (limb t 0 - 0xffed) := by
    rw [← difference, ← zero]
    exact limb_set gf0 0 _
  refine ⟨runs, ⟨fun j below => absurd below (Nat.not_lt_zero _), fun j here => ?_,
    fun j above => ?_, ?_⟩⟩
  · rw [limbs, show j = 0 from Fin.ext here, Function.update_self]
    omega
  · rw [limbs, Function.update_of_ne (Fin.pos_iff_ne_zero.mp above)]
  · have sum := weigh_upTo_succ (2 ^ 16) (fun j => limb t j - primeLimb j) 0
    rw [Fin.val_zero, weigh_upTo_zero, zero_add] at sum
    rw [value, limbs, weigh_update, weigh_zero, zero_add, sub_zero, sum, zero_add]
    rfl

/-- The loop over the limbs between the first and the last one. -/
def subtractMiddle (t : Gf) : Gf :=
  (List.finRange 14).foldl
    (fun (m : Gf) (k : Fin 14) => subtractLimb t m 0xffff k.val (by omega))
    (gf0.set 0 (getElem t 0 zero16 - 0xffed) zero16)

/-- The last limb, and the choice between the number and the difference. -/
def keepDifference (t m : Gf) : Gf :=
  let top := m.set 15 (getElem t 15 fifteen16 - (0x7fff : Int64) -
    borrow (getElem m 14 fourteen16)) fifteen16
  (sel25519 t (subtractLimb t m 0x7fff 14 fourteen15)
    ((1 : Int64) - borrow (getElem top 15 fifteen16))).1

theorem subtractPrime_eq (t : Gf) : subtractPrime t = keepDifference t (subtractMiddle t) := rfl

theorem subtractMiddle_spec {t : Gf} (reduced : Reduced t) :
    (List.finRange 14).foldlM
        (fun (m : Gf) (k : Fin 14) => do
          let d ← Word.sub (getElem t (k.val + 1) (next14 k)) 0xffff
          let x ← Word.sub d (borrow (getElem m k.val (fin14 k)))
          let m := m.set (k.val + 1) x (next14 k)
          pure (m.set k.val (getElem m k.val (fin14 k) &&& 0xffff) (fin14 k)))
        (gf0.set 0 (getElem t 0 zero16 - 0xffed) zero16) =
        .ok (subtractMiddle t) ∧
      Differs t 14 (subtractMiddle t) := by
  refine foldlM_finRange (differs_start reduced).2 fun k m differs => ?_
  have constant : (0xffff : Int64).toInt = primeLimb ⟨k.val + 1, by omega⟩ := by
    rw [primeLimb, if_neg (Fin.ne_of_val_ne (Nat.succ_ne_zero _)),
      if_neg (Fin.ne_of_val_ne (show k.val + 1 ≠ 15 by omega))]
    rfl
  obtain ⟨takes, borrows, next⟩ := subtractLimb_spec reduced (by omega) constant differs
  refine ⟨?_, next⟩
  rw [Checked.bind_of_ok takes]
  exact Checked.bind_of_ok borrows _

/-- The highest limb of a difference tells its sign. -/
theorem Differs.sign {t s : Gf} (differs : Differs t 15 s) :
    value s = value t - prime25519 ∧ (0 ≤ limb s 15 ↔ (prime25519 : ℤ) ≤ value t) := by
  have difference : value s = value t - prime25519 := by
    rw [differs.sum, upTo_all, weigh_sub, weigh_primeLimb]
    rfl
  have split := weigh_castSucc (2 ^ 16) (limb s)
  obtain ⟨least, most⟩ := weigh_bounds (f := fun k : Fin 15 => limb s k.castSucc) fun k =>
    differs.below k.castSucc k.isLt
  refine ⟨difference, ?_⟩
  rw [value] at difference
  rw [split] at difference
  generalize weigh (2 ^ 16) (fun k : Fin 15 => limb s k.castSucc) = low at *
  change low + limb s 15 * (2 ^ 16) ^ 15 = _ at difference
  omega

theorem keepDifference_spec {t m : Gf} (reduced : Reduced t) (differs : Differs t 14 m) :
    (do
        let d ← Word.sub (getElem t 15 fifteen16) 0x7fff
        let x ← Word.sub d (borrow (getElem m 14 fourteen16))
        let m := m.set 15 x fifteen16
        let b := borrow (getElem m 15 fifteen16)
        let m := m.set 14 (getElem m 14 fourteen16 &&& 0xffff) fourteen16
        let keep ← Word.sub 1 b
        let (t, _) ← Checked25519.sel25519 t m keep
        pure t) = .ok (keepDifference t m) ∧
      Reduced (keepDifference t m) ∧
        value (keepDifference t m) =
          if (prime25519 : ℤ) ≤ value t then value t - prime25519 else value t := by
  obtain ⟨takes, borrows, last⟩ := subtractLimb_spec reduced (show 14 < 15 by omega)
    (c := 0x7fff) rfl differs
  obtain ⟨difference, sign⟩ := last.sign
  have difference15 : (m.set 15 (t[15] - (0x7fff : Int64) - borrow m[14]))[15] =
      t[15] - (0x7fff : Int64) - borrow m[14] := Vector.getElem_set_self _
  have top : limb (subtractLimb t m 0x7fff 14 (by omega)) 15 =
      (t[15] - (0x7fff : Int64) - borrow m[14]).toInt := by
    have other : (subtractLimb t m 0x7fff 14 (by omega))[15] =
        (m.set 15 (t[15] - (0x7fff : Int64) - borrow m[14]))[15] :=
      Vector.getElem_set_ne (by omega) (by omega) (by omega)
    exact congrArg Int64.toInt (other.trans difference15)
  have lowered : ((m.set 15 (t[15] - (0x7fff : Int64) - borrow m[14])).set 14
      ((m.set 15 (t[15] - (0x7fff : Int64) - borrow m[14]))[14] &&& 0xffff)) =
        subtractLimb t m 0x7fff 14 (by omega) := rfl
  obtain ⟨low, high⟩ := last.here 15 rfl
  rw [top] at low high sign
  rw [Checked.bind_of_ok takes, Checked.bind_of_ok borrows, keepDifference]
  dsimp only
  rw [lowered, difference15]
  generalize subtractLimb t m 0x7fff 14 (by omega) = s at *
  generalize t[15] - (0x7fff : Int64) - borrow m[14] = x at *
  obtain ⟨keeps, kept⟩ := Word.sub_spec (a := 1) (x := 1) rfl (toInt_borrow low high)
    ⟨by omega, by omega⟩
  have keep : (1 : Int64) - borrow x = bitWord (decide (0 ≤ x.toInt)) := by
    refine Int64.toInt_inj.mp ?_
    rw [kept]
    by_cases positive : 0 ≤ x.toInt
    · rw [decide_eq_true positive]
      show _ = (1 : ℤ)
      omega
    · rw [decide_eq_false positive]
      show _ = (0 : ℤ)
      omega
  rw [Checked.bind_of_ok keeps, keep]
  refine ⟨Checked.bind_of_ok (checked_sel25519 t _ _) _, ?_⟩
  rw [sel25519_eq]
  by_cases positive : 0 ≤ x.toInt
  · rw [decide_eq_true positive, if_pos (sign.mp positive)]
    refine ⟨fun k => ?_, difference⟩
    by_cases highest : k.val = 15
    · rw [show k = 15 from Fin.ext highest]
      show 0 ≤ limb s 15 ∧ limb s 15 < 2 ^ 16
      rw [top]
      exact ⟨positive, high⟩
    · exact last.below k (by omega)
  · rw [decide_eq_false positive, if_neg fun least => positive (sign.mpr least)]
    exact ⟨reduced, rfl⟩

/-- **Subtracting the prime** does not overflow, and takes the prime off a number that is not
less. -/
theorem subtractPrime_spec {t : Gf} (reduced : Reduced t) :
    Checked25519.subtractPrime t = .ok (subtractPrime t) ∧ Reduced (subtractPrime t) ∧
      value (subtractPrime t) =
        if (prime25519 : ℤ) ≤ value t then value t - prime25519 else value t := by
  obtain ⟨loop, differs⟩ := subtractMiddle_spec reduced
  rw [Checked25519.subtractPrime, Checked.bind_of_ok (differs_start reduced).1,
    Checked.bind_of_ok loop, subtractPrime_eq]
  exact keepDifference_spec reduced differs

/-! ## Bytes -/

/-- The canonical bytes of a residue, the lowest first. -/
def encode (x : Field25519) : Vector UInt8 32 :=
  Vector.ofFn fun k => UInt8.ofNat (x.val / 256 ^ k.val)

theorem limbByte_eq {y : Int64} {m : Nat} (same : y.toInt % 256 = (m : ℤ) % 256) :
    limbByte y = UInt8.ofNat m := by
  have word : y.toInt = (y.toBitVec.toNat : ℤ).bmod (2 ^ 64) := BitVec.toInt_eq_toNat_bmod _
  have low : y.toInt % 256 = (y.toBitVec.toNat : ℤ) % 256 := by
    have divides : (256 : ℤ) ∣ ((2 ^ 64 : ℕ) : ℤ) := ⟨2 ^ 56, by norm_num⟩
    rw [word, ← Int.emod_emod_of_dvd _ divides, Int.bmod_emod, Int.emod_emod_of_dvd _ divides]
  refine UInt8.toNat_inj.mp ?_
  rw [limbByte, UInt64.toNat_toUInt8, UInt8.toNat_ofNat']
  show y.toBitVec.toNat % 256 = m % 256
  omega

/-- Bytes of a number at even and at odd positions, from its digits of sixteen bits. -/
theorem byte_even (m j : Nat) : ((m / 256 ^ (2 * j) : ℕ) : ℤ) = m / (2 ^ 16) ^ j := by
  rw [pow_mul, Int.natCast_ediv, Nat.cast_pow]
  rfl

theorem byte_odd (m j : Nat) : ((m / 256 ^ (2 * j + 1) : ℕ) : ℤ) = m / (2 ^ 16) ^ j / 2 ^ 8 := by
  rw [pow_succ, ← Nat.div_div_eq_div_mul, Int.natCast_ediv, byte_even]
  rfl

theorem packed_bytes {t : Gf} (reduced : Reduced t) {m : Nat} (holds : value t = m) :
    (Vector.ofFn fun k : Fin 32 =>
      if k.val % 2 = 0 then limbByte (t[k.val / 2] &&& 0xff) else limbByte (t[k.val / 2] >>> 8)) =
      Vector.ofFn fun k : Fin 32 => UInt8.ofNat (m / 256 ^ k.val) := by
  refine Vector.ext fun k inside => ?_
  rw [Vector.getElem_ofFn, Vector.getElem_ofFn]
  have here : t[k / 2].toInt = (m : ℤ) / (2 ^ 16) ^ (k / 2) % 2 ^ 16 := by
    rw [← holds]
    exact (weigh_digit reduced ⟨k / 2, by omega⟩).symm
  dsimp only
  split
  · rename_i even
    refine limbByte_eq ?_
    have digit := byte_even m (k / 2)
    rw [show 2 * (k / 2) = k by omega] at digit
    rw [Word.toInt_and_ff, here, digit]
    omega
  · rename_i odd
    refine limbByte_eq ?_
    have digit := byte_odd m (k / 2)
    rw [show 2 * (k / 2) + 1 = k by omega] at digit
    rw [Word.toInt_shr8 here, digit]
    omega

/-! ## The bytes of a residue -/

theorem subtractPrime_element {t : Gf} (reduced : Reduced t) :
    element (subtractPrime t) = element t := by
  rw [element, (subtractPrime_spec reduced).2.2]
  split
  · rw [Int.cast_sub, Int.cast_natCast, ZMod.natCast_self, sub_zero]
    rfl
  · rfl

/-- **Packing** does not overflow and gives the canonical bytes of the residue. -/
theorem pack25519_spec {n : Gf} {x : Field25519} (stands : Stands n x) :
    Checked25519.pack25519 n = .ok (pack25519 n) ∧ pack25519 n = encode x := by
  obtain ⟨runs1, reduced1, same1⟩ := car25519_settled stands.1
  obtain ⟨runs2, reduced2, same2⟩ := car25519_reduced reduced1
  obtain ⟨runs3, reduced3, same3⟩ := car25519_reduced reduced2
  obtain ⟨runs4, reduced4, same4⟩ := subtractPrime_spec reduced3
  obtain ⟨runs5, reduced5, same5⟩ := subtractPrime_spec reduced4
  have residue : element (subtractPrime (subtractPrime (car25519 (car25519 (car25519 n))))) = x := by
    rw [subtractPrime_element reduced4, subtractPrime_element reduced3, element, same3, same2]
    exact same1.trans stands.2
  have bounds3 := reduced3.bounds
  rw [Checked25519.pack25519, Checked.bind_of_ok runs1, Checked.bind_of_ok runs2,
    Checked.bind_of_ok runs3, Checked.bind_of_ok runs4, Checked.bind_of_ok runs5]
  refine ⟨rfl, ?_⟩
  have bounds5 := reduced5.bounds
  have least : value (subtractPrime (subtractPrime (car25519 (car25519 (car25519 n))))) <
      prime25519 := by
    rw [same5, same4]
    rw [prime25519]
    split_ifs <;> omega
  rw [pack25519]
  generalize subtractPrime (subtractPrime (car25519 (car25519 (car25519 n)))) = t at *
  rw [encode]
  refine packed_bytes reduced5 ?_
  rw [← residue, element, ZMod.val_intCast, Int.emod_eq_of_lt bounds5.1 least]

end RustyPenguin.Crypto
