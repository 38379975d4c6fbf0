import RustyPenguin.Crypto.LittleEndian
import RustyPenguin.Crypto.Poly1305.Blocks

/-!
# The end of Poly1305

The last carries reduce all limbs, so that the accumulator is below `2 ^ 130` and less than twice
the prime; taking the prime away where it fits leaves the representative below the prime
(`freeze_spec`), also of the five numbers between the prime and the power. The tag is that number
and the pad, added in words of 32 bits (`addPad_spec`).
-/

set_option autoImplicit false

namespace RustyPenguin.Crypto.Poly1305

open Unsigned

/-! ## The last carries -/

theorem settle_spec {h : Vector UInt32 5} (bounded : Bounded h) :
    CheckedPoly1305.settle h = .ok (settle h) ∧ Settled (settle h) ∧
      value h ≡ value (settle h) [MOD prime] := by
  obtain ⟨b0, b1, b2, b3, b4⟩ := bounded
  obtain ⟨q1, m1, e1, t1, c1, l1⟩ := limb_split (a := h[1]) rfl
  obtain ⟨a2, s2⟩ := add32_spec (a := h[2]) rfl c1 (by omega)
  obtain ⟨q2, m2, e2, t2, c2, l2⟩ := limb_split s2
  obtain ⟨a3, s3⟩ := add32_spec (a := h[3]) rfl c2 (by omega)
  obtain ⟨q3, m3, e3, t3, c3, l3⟩ := limb_split s3
  obtain ⟨a4, s4⟩ := add32_spec (a := h[4]) rfl c3 (by omega)
  obtain ⟨q4, m4, e4, t4, c4, l4⟩ := limb_split s4
  obtain ⟨times, wrapped⟩ := mul32_spec (b := 5) (y := 5) c4 rfl (by omega)
  obtain ⟨a0, s0⟩ := add32_spec (a := h[0]) rfl wrapped (by omega)
  obtain ⟨q0, m0, e0, t0, c0, l0⟩ := limb_split s0
  obtain ⟨again, top⟩ := add32_spec l1 c0 (by omega)
  refine ⟨?_, ?_, ?_⟩
  · rw [CheckedPoly1305.settle, Checked.bind_of_ok a2, Checked.bind_of_ok a3, Checked.bind_of_ok a4,
      Checked.bind_of_ok times, Checked.bind_of_ok a0, Checked.bind_of_ok again]
    rfl
  · -- a carry out of the last limb came all the way from the second, which it left small
    clear s0 s2 s3 s4 c0 c1 c2 c3 c4 wrapped
    constructor <;> simp only [settle, Vector.getElem_mk, List.getElem_toArray,
      List.getElem_cons_zero, List.getElem_cons_succ, l0, top, l2, l3, l4] <;> omega
  · refine modEq_of_fold (e := q4) ?_
    simp only [value, settle, Vector.getElem_mk, List.getElem_toArray,
      List.getElem_cons_zero, List.getElem_cons_succ, l0, top, l2, l3, l4]
    clear s0 s2 s3 s4 c0 c1 c2 c3 c4 wrapped l0 l1 l2 l3 l4 top
    omega

/-! ## Taking the prime away -/

theorem and_ones (x : UInt32) : x &&& 0xffffffff = x := by
  rw [← UInt32.toNat_inj, UInt32.toNat_and]
  exact (Nat.and_two_pow_sub_one_eq_mod _ 32).trans (Nat.mod_eq_of_lt x.toNat_lt)

theorem and_not_ones (x : UInt32) : x &&& ~~~0xffffffff = 0 := by
  rw [show ~~~(0xffffffff : UInt32) = 0 by decide, UInt32.and_zero]

theorem and_not_zero (x : UInt32) : x &&& ~~~0 = x := by
  rw [show ~~~(0 : UInt32) = 0xffffffff by decide, and_ones]

/-- The mask is all ones where the difference is not negative. -/
theorem mask_spec {s : UInt32} {n : Nat} (number : s.toNat = n) (small : n ≤ 2 ^ 26) :
    ((s - 0x4000000) >>> 31) - 1 = (if n = 2 ^ 26 then 0xffffffff else 0) ∧
      (n = 2 ^ 26 → s - 0x4000000 = 0) := by
  subst number
  by_cases full : s.toNat = 2 ^ 26
  · have word : s = 0x4000000 := UInt32.toNat_inj.mp full
    rw [if_pos full, word]
    exact ⟨by decide, fun _ => by decide⟩
  · have wraps : (s - 0x4000000).toNat = 2 ^ 32 - 2 ^ 26 + s.toNat := by
      rw [UInt32.toNat_sub]
      exact Nat.mod_eq_of_lt (by
        show 2 ^ 32 - 2 ^ 26 + s.toNat < 2 ^ 32
        omega)
    have one : (s - 0x4000000) >>> 31 = 1 := by
      rw [← UInt32.toNat_inj, toNat_shr _ 31 (by decide), wraps]
      show (2 ^ 32 - 2 ^ 26 + s.toNat) / 2 ^ 31 = 1
      omega
    rw [if_neg full, one]
    exact ⟨by decide, fun same => absurd same full⟩

theorem chosen_ones (h g : Vector UInt32 5) : chosen 0xffffffff h g = g := by
  simp only [chosen, and_ones, and_not_ones, UInt32.zero_or]
  exact vector_five g

theorem chosen_zero (h g : Vector UInt32 5) : chosen 0 h g = h := by
  simp only [chosen, and_not_zero, UInt32.and_zero, UInt32.or_zero]
  exact vector_five h

open CheckedPoly1305 (freeze)

/-- The limbs with the prime taken away hold the difference, where that is not negative; where it
is, the mask is zero. -/
theorem lowered_spec {h : Vector UInt32 5} (settled : Settled h) :
    (prime ≤ value h → keepMask (lowered h) = 0xffffffff ∧ Settled (lowered h) ∧
      value (lowered h) + prime = value h) ∧
    (value h < prime → keepMask (lowered h) = 0) := by
  obtain ⟨b0, b1, b2, b3, b4⟩ := settled
  obtain ⟨-, s0⟩ := add32_spec (a := h[0]) (b := 5) (y := 5) rfl rfl (by omega)
  obtain ⟨q0, m0, e0, t0, c0, l0⟩ := limb_split s0
  obtain ⟨-, s1⟩ := add32_spec (a := h[1]) rfl c0 (by omega)
  obtain ⟨q1, m1, e1, t1, c1, l1⟩ := limb_split s1
  obtain ⟨-, s2⟩ := add32_spec (a := h[2]) rfl c1 (by omega)
  obtain ⟨q2, m2, e2, t2, c2, l2⟩ := limb_split s2
  obtain ⟨-, s3⟩ := add32_spec (a := h[3]) rfl c2 (by omega)
  obtain ⟨q3, m3, e3, t3, c3, l3⟩ := limb_split s3
  obtain ⟨-, s4⟩ := add32_spec (a := h[4]) rfl c3 (by omega)
  obtain ⟨mask, zero⟩ := mask_spec s4 (by omega)
  have p : prime = 2 ^ 130 - 5 := rfl
  clear s0 s1 s2 s3 s4 c0 c1 c2 c3
  constructor
  · intro large
    rw [value, p] at large
    have full : h[4].toNat + q3 = 2 ^ 26 := by
      clear mask zero l0 l1 l2 l3
      omega
    have g4 : (lowered h)[4].toNat = 0 := congrArg UInt32.toNat (zero full)
    rw [if_pos full] at mask
    refine ⟨mask, ⟨l0.trans_lt t0, l1.trans_lt t1, l2.trans_lt t2, l3.trans_lt t3, ?_⟩, ?_⟩
    · rw [g4]
      decide
    · rw [value, value, g4, p]
      simp only [lowered, Vector.getElem_mk, List.getElem_toArray, List.getElem_cons_zero,
        List.getElem_cons_succ, l0, l1, l2, l3]
      clear mask zero l0 l1 l2 l3 g4
      omega
  · intro small
    rw [value, p] at small
    rw [if_neg (by clear mask zero l0 l1 l2 l3; omega)] at mask
    exact mask

/-- **The representative below the prime**, of every number of five reduced limbs. -/
theorem freeze_spec {h : Vector UInt32 5} (settled : Settled h) :
    Settled (freeze h) ∧ value (freeze h) = value h % prime := by
  obtain ⟨above, below⟩ := lowered_spec settled
  rw [freeze_eq]
  by_cases large : prime ≤ value h
  · obtain ⟨mask, settled', difference⟩ := above large
    have bound : value h < 2 * prime := by
      obtain ⟨b0, b1, b2, b3, b4⟩ := settled
      have p : prime = 2 ^ 130 - 5 := rfl
      rw [value, p]
      omega
    rw [mask, chosen_ones, Nat.mod_eq_sub_mod large, Nat.mod_eq_of_lt (by omega)]
    exact ⟨settled', by omega⟩
  · rw [below (by omega), chosen_zero, Nat.mod_eq_of_lt (by omega)]
    exact ⟨settled, rfl⟩

/-! ## Adding the pad -/

theorem shr32 {a : UInt64} {x : Nat} (number : a.toNat = x) : (a >>> 32).toNat = x / 2 ^ 32 := by
  rw [toNat_shr64 a 32 (by decide), number]
  rfl

theorem low32 {a : UInt64} {x : Nat} (number : a.toNat = x) :
    a.toUInt32.toNat = x % 2 ^ 32 := by
  rw [UInt64.toNat_toUInt32, number]

theorem toList_arrayAt {n : Nat} {bytes : List UInt8} (length : bytes.length = n) :
    (arrayAt n bytes 0).toList = bytes := by
  refine List.ext_getElem (Vector.length_toList.trans length.symm) fun i _ inside => ?_
  simp only [Vector.getElem_toList, arrayAt, Vector.getElem_ofFn, Nat.zero_add, byte]
  exact List.getD_eq_getElem _ _ inside

theorem toList_arrayAt_words (w0 w1 w2 w3 : UInt32) :
    (arrayAt 16 (leBytes w0 ++ leBytes w1 ++ leBytes w2 ++ leBytes w3) 0).toList =
      leBytes w0 ++ leBytes w1 ++ leBytes w2 ++ leBytes w3 :=
  toList_arrayAt (by simp only [List.length_append, length_leBytes])

theorem addPad_spec {h : Vector UInt32 5} (settled : Settled h) (pad : Vector UInt32 4) :
    CheckedPoly1305.addPad h pad = .ok (addPad h pad) ∧
      leNumber (addPad h pad).toList = (value h + padNumber pad) % 2 ^ 128 := by
  have n : ∀ x : UInt32, x.toUInt64.toNat = x.toNat := fun x => UInt32.toNat_toUInt64 x
  have h1 : (h[1] >>> 6).toNat = h[1].toNat / 2 ^ 6 := toNat_shr _ 6 (by decide)
  have h2 : (h[2] >>> 12).toNat = h[2].toNat / 2 ^ 12 := toNat_shr _ 12 (by decide)
  have h3 : (h[3] >>> 18).toNat = h[3].toNat / 2 ^ 18 := toNat_shr _ 18 (by decide)
  have p0 := pad[0].toNat_lt
  have p1 := pad[1].toNat_lt
  have p2 := pad[2].toNat_lt
  have p3 := pad[3].toNat_lt
  have n0 := n pad[0]
  have n1 := n pad[1]
  have n2 := n pad[2]
  have n3 := n pad[3]
  have w0 := toNat_or_shl (w := h[0]) (a := h[1]) (s := 26) (k := 26) rfl (by decide) settled.h0
  have w1 := toNat_or_shl (w := h[1] >>> 6) (a := h[2]) (s := 20) (k := 20) rfl (by decide)
    (h1.trans_lt (Nat.div_lt_of_lt_mul settled.h1))
  have w2 := toNat_or_shl (w := h[2] >>> 12) (a := h[3]) (s := 14) (k := 14) rfl (by decide)
    (h2.trans_lt (Nat.div_lt_of_lt_mul settled.h2))
  have w3 := toNat_or_shl (w := h[3] >>> 18) (a := h[4]) (s := 8) (k := 8) rfl (by decide)
    (h3.trans_lt (Nat.div_lt_of_lt_mul settled.h3))
  obtain ⟨b0, b1, b2, b3, b4⟩ := settled
  rw [h1] at w1
  rw [h2] at w2
  rw [h3] at w3
  clear h1 h2 h3
  obtain ⟨f0, s0⟩ := add64_spec ((n _).trans w0) n0 (by omega)
  obtain ⟨f1, s1⟩ := add64_spec ((n _).trans w1) n1 (by omega)
  obtain ⟨f2, s2⟩ := add64_spec ((n _).trans w2) n2 (by omega)
  obtain ⟨f3, s3⟩ := add64_spec ((n _).trans w3) n3 (by omega)
  clear w0 w1 w2 w3 n0 n1 n2 n3
  obtain ⟨e1, v1⟩ := add64_spec (shr32 s0) s1 (by omega)
  obtain ⟨e2, v2⟩ := add64_spec (shr32 v1) s2 (by omega)
  obtain ⟨e3, v3⟩ := add64_spec (shr32 v2) s3 (by omega)
  refine ⟨?_, ?_⟩
  · rw [CheckedPoly1305.addPad, Checked.bind_of_ok f0, Checked.bind_of_ok f1,
      Checked.bind_of_ok f2, Checked.bind_of_ok f3, Checked.bind_of_ok e1, Checked.bind_of_ok e2,
      Checked.bind_of_ok e3]
    rfl
  · rw [addPad, toList_arrayAt_words, leNumber_append, leNumber_append, leNumber_append,
      leNumber_leBytes, leNumber_leBytes, leNumber_leBytes, leNumber_leBytes,
      low32 s0, low32 v1, low32 v2, low32 v3]
    simp only [List.length_append, length_leBytes, value, padNumber]
    clear s0 s1 s2 s3 v1 v2 v3 f0 f1 f2 f3 e1 e2 e3
    omega

end RustyPenguin.Crypto.Poly1305
