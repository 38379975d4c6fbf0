import Mathlib.Data.Nat.ModEq
import Mathlib.Tactic.Ring
import RustyPenguin.Crypto.ChaCha20Poly1305

/-!
# A block of Poly1305

The accumulator is five limbs of 26 bits, of which the second may be larger by less than 64. From
such an accumulator, a block is added, multiplied by a clamped key and carried without any word
overflowing; the accumulator that comes out is of the same kind, and its number is congruent to
that of the exact product (`block_spec`).
-/

set_option autoImplicit false

namespace RustyPenguin.Crypto

open Unsigned

namespace Poly1305

/-- What stands above the prime's power is worth five times itself. -/
theorem modEq_of_fold {a b e : Nat} (same : a + 5 * e = b + 2 ^ 130 * e) :
    a ≡ b [MOD prime] := by
  have exact' : a = b + prime * e := by
    have split : (2 : Nat) ^ 130 * e = prime * e + 5 * e := by
      rw [← Nat.add_mul]
      rfl
    omega
  rw [exact', Nat.ModEq, Nat.add_mul_mod_self_left]

/-! ## Adding a block -/

theorem toNat_low (t : UInt32) : (t &&& 0x3ffffff).toNat = t.toNat % 2 ^ 26 :=
  toNat_and_mask t 0x3ffffff (k := 26) rfl

/-- The middle limbs of a block lie across two of its words. -/
theorem toNat_across (t u s s' : UInt32) {k : Nat} (below : s.toNat = 32 - k) (shift : s'.toNat = k)
    (positive : 0 < k) (inside : k < 26) :
    (((t >>> s) ||| (u <<< s')) &&& 0x3ffffff).toNat =
      t.toNat / 2 ^ (32 - k) + u.toNat % 2 ^ (26 - k) * 2 ^ k := by
  have high : (t >>> s).toNat = t.toNat / 2 ^ (32 - k) := by
    rw [toNat_shr t s (by omega), below]
  have small : t.toNat / 2 ^ (32 - k) < 2 ^ k := by
    rw [Nat.div_lt_iff_lt_mul (Nat.two_pow_pos _), ← pow_add, Nat.add_sub_cancel' (by omega)]
    exact t.toNat_lt
  have split : (2 : Nat) ^ 26 = 2 ^ (26 - k) * 2 ^ k := by
    rw [← pow_add, Nat.sub_add_cancel (by omega)]
  have word : (2 : Nat) ^ (32 - k) = 2 ^ (26 - k) * 2 ^ 6 := by
    rw [← pow_add]
    congr 1
    omega
  rw [toNat_low, toNat_or_shl shift (by omega) (by rw [high]; exact small), high, split]
  have lower : u.toNat % 2 ^ (26 - k) * 2 ^ k + 2 ^ k ≤ 2 ^ (26 - k) * 2 ^ k := by
    rw [← Nat.succ_mul]
    exact Nat.mul_le_mul_right _ (Nat.mod_lt _ (Nat.two_pow_pos _))
  have above : u.toNat % 2 ^ (32 - k) * 2 ^ k % (2 ^ (26 - k) * 2 ^ k) =
      u.toNat % 2 ^ (26 - k) * 2 ^ k := by
    rw [Nat.mul_mod_mul_right, word, Nat.mod_mul_right_mod]
  have fits : t.toNat / 2 ^ (32 - k) < 2 ^ (26 - k) * 2 ^ k := by omega
  rw [Nat.add_mod, above, Nat.mod_eq_of_lt fits, Nat.mod_eq_of_lt (by omega)]

theorem addBlock_spec {hibit : UInt32} {h : Vector UInt32 5} (m : List UInt8)
    (bounded : Bounded h) (one : hibit = 0 ∨ hibit = 0x1000000) :
    CheckedPoly1305.addBlock hibit h m = .ok (addBlock hibit h m) ∧
      Raised (addBlock hibit h m) ∧
      value (addBlock hibit h m) = value h + words m + 2 ^ 104 * hibit.toNat := by
  obtain ⟨b0, b1, b2, b3, b4⟩ := bounded
  have w0 := (leWord m 0).toNat_lt
  have w1 := (leWord m 4).toNat_lt
  have w2 := (leWord m 8).toNat_lt
  have w3 := (leWord m 12).toNat_lt
  have t0 := toNat_low (leWord m 0)
  have t1 := toNat_across (leWord m 0) (leWord m 4) 26 6 (k := 6) rfl rfl (by decide) (by decide)
  have t2 := toNat_across (leWord m 4) (leWord m 8) 20 12 (k := 12) rfl rfl (by decide) (by decide)
  have t3 := toNat_across (leWord m 8) (leWord m 12) 14 18 (k := 18) rfl rfl (by decide) (by decide)
  have top : (leWord m 12 >>> 8).toNat = (leWord m 12).toNat / 2 ^ 8 :=
    toNat_shr (leWord m 12) 8 (by decide)
  have t4 : (leWord m 12 >>> 8 ||| hibit).toNat = (leWord m 12).toNat / 2 ^ 8 + hibit.toNat := by
    obtain rfl | rfl := one
    · rw [UInt32.or_zero, top]
      rfl
    · have joined := toNat_or_shl (w := leWord m 12 >>> 8) (a := 1) (s := 24) (k := 24) rfl
        (by decide) (by rw [top]; omega)
      have shifted : (1 : UInt32) <<< 24 = 0x1000000 := by decide
      rw [shifted, top] at joined
      exact joined
  have hib : hibit.toNat ≤ 2 ^ 24 := by
    obtain rfl | rfl := one <;> decide
  obtain ⟨s0, e0⟩ := add32_spec rfl t0 (x := h[0].toNat) (by omega)
  obtain ⟨s1, e1⟩ := add32_spec rfl t1 (x := h[1].toNat) (by omega)
  obtain ⟨s2, e2⟩ := add32_spec rfl t2 (x := h[2].toNat) (by omega)
  obtain ⟨s3, e3⟩ := add32_spec rfl t3 (x := h[3].toNat) (by omega)
  obtain ⟨s4, e4⟩ := add32_spec rfl t4 (x := h[4].toNat) (by omega)
  refine ⟨?_, ?_, ?_⟩
  · rw [CheckedPoly1305.addBlock, Checked.bind_of_ok s0, Checked.bind_of_ok s1, Checked.bind_of_ok s2, Checked.bind_of_ok s3,
      Checked.bind_of_ok s4]
    rfl
  · constructor <;> simp only [addBlock, Vector.getElem_mk, List.getElem_toArray,
      List.getElem_cons_zero, List.getElem_cons_succ] <;> omega
  · simp only [value, words, addBlock, Vector.getElem_mk, List.getElem_toArray,
      List.getElem_cons_zero, List.getElem_cons_succ]
    omega

/-! ## Multiplying by the key -/

theorem row_spec {h0 r0 h1 r1 h2 r2 h3 r3 h4 r4 : UInt64} {x0 y0 x1 y1 x2 y2 x3 y3 x4 y4 : Nat}
    (eh0 : h0.toNat = x0) (er0 : r0.toNat = y0) (eh1 : h1.toNat = x1) (er1 : r1.toNat = y1)
    (eh2 : h2.toNat = x2) (er2 : r2.toNat = y2) (eh3 : h3.toNat = x3) (er3 : r3.toNat = y3)
    (eh4 : h4.toNat = x4) (er4 : r4.toNat = y4) (fits0 : x0 * y0 < 2 ^ 60) (fits1 : x1 * y1 < 2 ^ 60)
    (fits2 : x2 * y2 < 2 ^ 60) (fits3 : x3 * y3 < 2 ^ 60) (fits4 : x4 * y4 < 2 ^ 60) :
    CheckedPoly1305.row h0 r0 h1 r1 h2 r2 h3 r3 h4 r4 =
        .ok (h0 * r0 + h1 * r1 + h2 * r2 + h3 * r3 + h4 * r4) ∧
      (h0 * r0 + h1 * r1 + h2 * r2 + h3 * r3 + h4 * r4).toNat =
        x0 * y0 + x1 * y1 + x2 * y2 + x3 * y3 + x4 * y4 := by
  obtain ⟨m0, p0⟩ := mul64_spec eh0 er0 (by omega)
  obtain ⟨m1, p1⟩ := mul64_spec eh1 er1 (by omega)
  obtain ⟨m2, p2⟩ := mul64_spec eh2 er2 (by omega)
  obtain ⟨m3, p3⟩ := mul64_spec eh3 er3 (by omega)
  obtain ⟨m4, p4⟩ := mul64_spec eh4 er4 (by omega)
  obtain ⟨a1, s1⟩ := add64_spec p0 p1 (by omega)
  obtain ⟨a2, s2⟩ := add64_spec s1 p2 (by omega)
  obtain ⟨a3, s3⟩ := add64_spec s2 p3 (by omega)
  obtain ⟨a4, s4⟩ := add64_spec s3 p4 (by omega)
  refine ⟨?_, s4⟩
  rw [CheckedPoly1305.row, Checked.bind_of_ok m0, Checked.bind_of_ok m1, Checked.bind_of_ok a1,
    Checked.bind_of_ok m2, Checked.bind_of_ok a2, Checked.bind_of_ok m3, Checked.bind_of_ok a3,
    Checked.bind_of_ok m4, a4]

theorem times_five {r : UInt32} (limb : r.toNat < 2 ^ 26) :
    mul32 r 5 = .ok (r * 5) ∧ (r * 5).toUInt64.toNat = 5 * r.toNat := by
  obtain ⟨runs, number⟩ := mul32_spec (a := r) (b := 5) rfl rfl (by
    show r.toNat * 5 < 2 ^ 32
    omega)
  refine ⟨runs, ?_⟩
  rw [UInt32.toNat_toUInt64, number]
  exact Nat.mul_comm _ _

/-- The product of two numbers in limbs, the limbs from `2 ^ 130` on folded back fivefold. -/
theorem fold_product (x0 x1 x2 x3 x4 y0 y1 y2 y3 y4 : Nat) :
    (x0 + 2 ^ 26 * x1 + 2 ^ 52 * x2 + 2 ^ 78 * x3 + 2 ^ 104 * x4) *
          (y0 + 2 ^ 26 * y1 + 2 ^ 52 * y2 + 2 ^ 78 * y3 + 2 ^ 104 * y4) +
        5 * (x1 * y4 + x2 * y3 + x3 * y2 + x4 * y1 + 2 ^ 26 * (x2 * y4 + x3 * y3 + x4 * y2) +
          2 ^ 52 * (x3 * y4 + x4 * y3) + 2 ^ 78 * (x4 * y4)) =
      x0 * y0 + x1 * (5 * y4) + x2 * (5 * y3) + x3 * (5 * y2) + x4 * (5 * y1) +
            2 ^ 26 * (x0 * y1 + x1 * y0 + x2 * (5 * y4) + x3 * (5 * y3) + x4 * (5 * y2)) +
          2 ^ 52 * (x0 * y2 + x1 * y1 + x2 * y0 + x3 * (5 * y4) + x4 * (5 * y3)) +
        2 ^ 78 * (x0 * y3 + x1 * y2 + x2 * y1 + x3 * y0 + x4 * (5 * y4)) +
      2 ^ 104 * (x0 * y4 + x1 * y3 + x2 * y2 + x3 * y1 + x4 * y0) +
      2 ^ 130 * (x1 * y4 + x2 * y3 + x3 * y2 + x4 * y1 + 2 ^ 26 * (x2 * y4 + x3 * y3 + x4 * y2) +
          2 ^ 52 * (x3 * y4 + x4 * y3) + 2 ^ 78 * (x4 * y4)) := by
  ring

/-- A row is at most the sum of the bounds of its products. -/
theorem row_le {n a b c d e A B C D E : Nat} (sum : n = a + b + c + d + e) (first : a ≤ A)
    (second : b ≤ B) (third : c ≤ C) (fourth : d ≤ D) (fifth : e ≤ E) : n ≤ A + B + C + D + E :=
  sum ▸ Nat.add_le_add (Nat.add_le_add (Nat.add_le_add (Nat.add_le_add first second) third) fourth)
    fifth

theorem multiply_spec {r h : Vector UInt32 5} (clamped : Clamped r) (raised : Raised h) :
    CheckedPoly1305.multiply r h = .ok (multiply r h) ∧ Carriable (multiply r h) ∧
      ∃ e, value h * value r + 5 * e = wide (multiply r h) + 2 ^ 130 * e := by
  have n : ∀ x : UInt32, x.toUInt64.toNat = x.toNat := fun x => UInt32.toNat_toUInt64 x
  have h0 := n h[0]
  have h1 := n h[1]
  have h2 := n h[2]
  have h3 := n h[3]
  have h4 := n h[4]
  have r0 := n r[0]
  have r1 := n r[1]
  have r2 := n r[2]
  have r3 := n r[3]
  have r4 := n r[4]
  obtain ⟨c0, c1, c2, c3, c4⟩ := clamped
  obtain ⟨b0, b1, b2, b3, b4⟩ := raised
  obtain ⟨f1, s1⟩ := times_five c1
  obtain ⟨f2, s2⟩ := times_five c2
  obtain ⟨f3, s3⟩ := times_five c3
  obtain ⟨f4, s4⟩ := times_five c4
  have plain : ∀ {x y : UInt32}, x.toNat ≤ 2 ^ 27 + 64 → y.toNat < 2 ^ 26 →
      x.toNat * y.toNat ≤ (2 ^ 27 + 64) * 2 ^ 26 :=
    fun raised limb => Nat.mul_le_mul raised (Nat.le_of_lt limb)
  have fivefold : ∀ {x y : UInt32}, x.toNat ≤ 2 ^ 27 + 64 → y.toNat < 2 ^ 26 →
      x.toNat * (5 * y.toNat) ≤ (2 ^ 27 + 64) * (5 * 2 ^ 26) :=
    fun raised limb => Nat.mul_le_mul raised (Nat.mul_le_mul_left 5 (Nat.le_of_lt limb))
  have small : ∀ {n : Nat}, n ≤ (2 ^ 27 + 64) * 2 ^ 26 → n < 2 ^ 60 := fun le =>
    Nat.lt_of_le_of_lt le (by decide)
  have small5 : ∀ {n : Nat}, n ≤ (2 ^ 27 + 64) * (5 * 2 ^ 26) → n < 2 ^ 60 := fun le =>
    Nat.lt_of_le_of_lt le (by decide)
  obtain ⟨row0, d0⟩ := row_spec h0 r0 h1 s4 h2 s3 h3 s2 h4 s1
    (small (plain b0 c0)) (small5 (fivefold b1 c4)) (small5 (fivefold b2 c3))
    (small5 (fivefold b3 c2)) (small5 (fivefold b4 c1))
  obtain ⟨row1, d1⟩ := row_spec h0 r1 h1 r0 h2 s4 h3 s3 h4
    s2 (small (plain b0 c1)) (small (plain b1 c0)) (small5 (fivefold b2 c4))
    (small5 (fivefold b3 c3)) (small5 (fivefold b4 c2))
  obtain ⟨row2, d2⟩ := row_spec h0 r2 h1 r1 h2 r0 h3 s4
    h4 s3 (small (plain b0 c2)) (small (plain b1 c1)) (small (plain b2 c0))
    (small5 (fivefold b3 c4)) (small5 (fivefold b4 c3))
  obtain ⟨row3, d3⟩ := row_spec h0 r3 h1 r2 h2 r1 h3
    r0 h4 s4 (small (plain b0 c3)) (small (plain b1 c2)) (small (plain b2 c1))
    (small (plain b3 c0)) (small5 (fivefold b4 c4))
  obtain ⟨row4, d4⟩ := row_spec h0 r4 h1 r3 h2 r2 h3
    r1 h4 r0 (small (plain b0 c4)) (small (plain b1 c3)) (small (plain b2 c2))
    (small (plain b3 c1)) (small (plain b4 c0))
  refine ⟨?_, ?_, ?_⟩
  · rw [CheckedPoly1305.multiply, Checked.bind_of_ok f1, Checked.bind_of_ok f2,
      Checked.bind_of_ok f3, Checked.bind_of_ok f4, Checked.bind_of_ok row0,
      Checked.bind_of_ok row1, Checked.bind_of_ok row2, Checked.bind_of_ok row3,
      Checked.bind_of_ok row4]
    rfl
  · constructor
    · exact (row_le d0 (plain b0 c0) (fivefold b1 c4) (fivefold b2 c3) (fivefold b3 c2)
        (fivefold b4 c1)).trans (by decide)
    · exact (row_le d1 (plain b0 c1) (plain b1 c0) (fivefold b2 c4) (fivefold b3 c3)
        (fivefold b4 c2)).trans (by decide)
    · exact (row_le d2 (plain b0 c2) (plain b1 c1) (plain b2 c0) (fivefold b3 c4)
        (fivefold b4 c3)).trans (by decide)
    · exact (row_le d3 (plain b0 c3) (plain b1 c2) (plain b2 c1) (plain b3 c0)
        (fivefold b4 c4)).trans (by decide)
    · exact (row_le d4 (plain b0 c4) (plain b1 c3) (plain b2 c2) (plain b3 c1)
        (plain b4 c0)).trans (by decide)
  · simp only [wide, value, multiply, Vector.getElem_mk, List.getElem_toArray,
      List.getElem_cons_zero, List.getElem_cons_succ, d0, d1, d2, d3, d4]
    exact ⟨_, fold_product ..⟩

/-! ## Carrying -/

theorem shr26 {a : UInt32} {x : Nat} (number : a.toNat = x) : (a >>> 26).toNat = x / 2 ^ 26 := by
  rw [toNat_shr a 26 (by decide), number]
  rfl

theorem low26 {a : UInt32} {x : Nat} (number : a.toNat = x) :
    (a &&& 0x3ffffff).toNat = x % 2 ^ 26 := by
  rw [toNat_low, number]

/-- A carry out of a limb: what is passed on fits its word. -/
theorem pass_spec {d : UInt64} {x : Nat} (number : d.toNat = x) (small : x < 2 ^ 58) :
    narrow (d >>> 26) = .ok (d >>> 26).toUInt32 ∧ (d >>> 26).toUInt32.toUInt64.toNat = x / 2 ^ 26 ∧
      (d.toUInt32 &&& 0x3ffffff).toNat = x % 2 ^ 26 := by
  have shifted : (d >>> 26).toNat = x / 2 ^ 26 := by
    rw [toNat_shr64 d 26 (by decide), number]
    rfl
  obtain ⟨runs, passed⟩ := narrow_spec shifted (by omega)
  refine ⟨runs, by rw [UInt32.toNat_toUInt64, passed], ?_⟩
  rw [toNat_low, UInt64.toNat_toUInt32, number, Nat.mod_mod_of_dvd _ (by decide)]

/-- The parts of a number on both sides of the bit above a limb. -/
theorem split26 (x : Nat) : ∃ q m, x = m + 2 ^ 26 * q ∧ m < 2 ^ 26 ∧ x / 2 ^ 26 = q ∧ x % 2 ^ 26 = m :=
  ⟨x / 2 ^ 26, x % 2 ^ 26, (Nat.mod_add_div x (2 ^ 26)).symm, Nat.mod_lt x (by decide), rfl, rfl⟩

theorem pass_split {d : UInt64} {x : Nat} (number : d.toNat = x) (small : x < 2 ^ 58) :
    narrow (d >>> 26) = .ok (d >>> 26).toUInt32 ∧ ∃ q m, x = m + 2 ^ 26 * q ∧ m < 2 ^ 26 ∧
      (d >>> 26).toUInt32.toUInt64.toNat = q ∧ (d.toUInt32 &&& 0x3ffffff).toNat = m := by
  obtain ⟨runs, passed, low⟩ := pass_spec number small
  obtain ⟨q, m, sum, limb, isQ, isM⟩ := split26 x
  exact ⟨runs, q, m, sum, limb, passed.trans isQ, low.trans isM⟩

theorem limb_split {a : UInt32} {x : Nat} (number : a.toNat = x) :
    ∃ q m, x = m + 2 ^ 26 * q ∧ m < 2 ^ 26 ∧ (a >>> 26).toNat = q ∧ (a &&& 0x3ffffff).toNat = m := by
  obtain ⟨q, m, sum, limb, isQ, isM⟩ := split26 x
  exact ⟨q, m, sum, limb, (shr26 number).trans isQ, (low26 number).trans isM⟩

theorem carry_spec {d : Vector UInt64 5} (carriable : Carriable d) :
    CheckedPoly1305.carry d = .ok (carry d) ∧ Bounded (carry d) ∧
      ∃ e, wide d + 5 * e = value (carry d) + 2 ^ 130 * e := by
  obtain ⟨b0, b1, b2, b3, b4⟩ := carriable
  obtain ⟨n0, q0, m0, e0, t0, c0, l0⟩ := pass_split (d := d[0]) rfl (by omega)
  obtain ⟨a1, s1⟩ := add64_spec (a := d[1]) rfl c0 (by omega)
  obtain ⟨n1, q1, m1, e1, t1, c1, l1⟩ := pass_split s1 (by omega)
  obtain ⟨a2, s2⟩ := add64_spec (a := d[2]) rfl c1 (by omega)
  obtain ⟨n2, q2, m2, e2, t2, c2, l2⟩ := pass_split s2 (by omega)
  obtain ⟨a3, s3⟩ := add64_spec (a := d[3]) rfl c2 (by omega)
  obtain ⟨n3, q3, m3, e3, t3, c3, l3⟩ := pass_split s3 (by omega)
  obtain ⟨a4, s4⟩ := add64_spec (a := d[4]) rfl c3 (by omega)
  obtain ⟨n4, q4, m4, e4, t4, c4, l4⟩ := pass_split s4 (by omega)
  rw [UInt32.toNat_toUInt64] at c4
  obtain ⟨times, wrapped⟩ := mul32_spec (b := 5) (y := 5) c4 rfl (by omega)
  obtain ⟨back, s0⟩ := add32_spec l0 wrapped (by omega)
  obtain ⟨q, m, e, t, passed, low⟩ := limb_split s0
  obtain ⟨last, top⟩ := add32_spec l1 passed (by omega)
  refine ⟨?_, ?_, ?_⟩
  · rw [CheckedPoly1305.carry, Checked.bind_of_ok n0, Checked.bind_of_ok a1,
      Checked.bind_of_ok n1, Checked.bind_of_ok a2, Checked.bind_of_ok n2, Checked.bind_of_ok a3,
      Checked.bind_of_ok n3, Checked.bind_of_ok a4, Checked.bind_of_ok n4,
      Checked.bind_of_ok times, Checked.bind_of_ok back, Checked.bind_of_ok last]
    rfl
  · constructor <;> simp only [carry, Vector.getElem_mk, List.getElem_toArray,
      List.getElem_cons_zero, List.getElem_cons_succ]
    · exact low.trans_lt t
    · rw [top]
      omega
    · exact l2.trans_lt t2
    · exact l3.trans_lt t3
    · exact l4.trans_lt t4
  · refine ⟨q4, ?_⟩
    simp only [wide, value, carry, Vector.getElem_mk, List.getElem_toArray,
      List.getElem_cons_zero, List.getElem_cons_succ, low, top, l2, l3, l4]
    clear s0 s1 s2 s3 s4 c0 c1 c2 c3 c4 l0 l1 l2 l3 l4 wrapped passed low top
    omega

/-! ## The block -/

theorem block_eq (r : Vector UInt32 5) (hibit : UInt32) (h : Vector UInt32 5) (m : List UInt8) :
    block r hibit h m = carry (multiply r (addBlock hibit h m)) := rfl

/-- **A block is added and multiplied** without an overflow, and leaves an accumulator of the same
kind that is congruent to the product. -/
theorem block_spec {r h : Vector UInt32 5} {hibit : UInt32} (m : List UInt8) (clamped : Clamped r)
    (bounded : Bounded h) (one : hibit = 0 ∨ hibit = 0x1000000) :
    CheckedPoly1305.block r hibit h m = .ok (block r hibit h m) ∧
      Bounded (block r hibit h m) ∧
      value (block r hibit h m) ≡ (value h + words m + 2 ^ 104 * hibit.toNat) * value r
        [MOD prime] := by
  obtain ⟨adds, raised, sum⟩ := addBlock_spec m bounded one
  obtain ⟨multiplies, carriable, above, product⟩ := multiply_spec clamped raised
  obtain ⟨carries, bounded', beyond, carried⟩ := carry_spec carriable
  rw [block_eq]
  refine ⟨?_, bounded', ?_⟩
  · rw [CheckedPoly1305.block, Checked.bind_of_ok adds, Checked.bind_of_ok multiplies, carries]
  · rw [← sum]
    exact ((modEq_of_fold product).trans (modEq_of_fold carried)).symm

/-- No limbs at all. -/
theorem bounded_zero : Bounded (Vector.replicate 5 0) := by
  constructor <;> decide

theorem value_zero : value (Vector.replicate 5 0) = 0 := by decide

end Poly1305

end RustyPenguin.Crypto
