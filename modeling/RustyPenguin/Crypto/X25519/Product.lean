import Mathlib.Data.Int.ModEq
import RustyPenguin.Crypto.X25519.Carries

/-!
# Sums and products of field elements

A product takes limbs of up to 19 bits and leaves settled limbs: reduced, but for the lowest
one, which its last carry may take a little out of range. Sums and differences of settled
elements are within what a product takes. No intermediate overflows, sums and differences are
exact and products congruent modulo the prime.
-/

set_option autoImplicit false

namespace RustyPenguin.Crypto

open Weights Positions

/-- Limbs that a product takes. -/
def Loose (o : Gf) : Prop := ∀ k, -2 ^ 18 ≤ limb o k ∧ limb o k ≤ 2 ^ 18

instance (o : Gf) : Decidable (Loose o) := inferInstanceAs (Decidable (∀ _, _ ∧ _))

/-- Limbs that a product leaves. -/
structure Settled (o : Gf) : Prop where
  first : -38 ≤ limb o 0 ∧ limb o 0 < 2 ^ 16 + 38
  rest : ∀ k, k ≠ 0 → 0 ≤ limb o k ∧ limb o k < 2 ^ 16

theorem Settled.within {o : Gf} (settled : Settled o) (k : Fin 16) :
    -38 ≤ limb o k ∧ limb o k < 2 ^ 16 + 38 := by
  by_cases zero : k = 0
  · rw [zero]
    exact settled.first
  · have := settled.rest k zero
    omega

theorem Settled.loose {o : Gf} (settled : Settled o) : Loose o := fun k => by
  have := settled.within k
  omega

/-! ## Sums and differences -/

/-- The first limbs filled. -/
def FilledUpTo (word : Fin 16 → Int64) (m : Nat) (o : Gf) : Prop :=
  ∀ k : Fin 16, k.val < m → getElem o k (fin16 k) = word k

theorem fill_spec {checked : Fin 16 → Checked Int64} {word : Fin 16 → Int64}
    (runs : ∀ i, checked i = .ok (word i)) :
    Checked25519.fill checked = .ok (Vector.ofFn word) := by
  have start : FilledUpTo word 0 gf0 := fun k below => absurd below (Nat.not_lt_zero _)
  have filled : Checked25519.fill checked =
        .ok ((List.finRange 16).foldl (fun (o : Gf) (i : Fin 16) => o.set i (word i)) gf0) ∧
      FilledUpTo word 16
        ((List.finRange 16).foldl (fun (o : Gf) (i : Fin 16) => o.set i (word i)) gf0) := by
    refine foldlM_finRange start fun i o upTo => ⟨Checked.bind_of_ok (runs i) _, fun k below => ?_⟩
    by_cases same : k = i
    · subst same
      simp
    · have apart : i.val ≠ k.val := fun equal => same (Fin.ext equal.symm)
      have before := upTo k (by omega)
      simpa [Vector.getElem_set_ne, apart] using before
  rw [filled.1]
  refine congrArg Except.ok (Vector.ext fun k inside => ?_)
  rw [Vector.getElem_ofFn]
  exact filled.2 ⟨k, inside⟩ inside

theorem limb_ofFn (word : Fin 16 → Int64) (k : Fin 16) :
    limb (Vector.ofFn word) k = (word k).toInt := by
  simp [limb]

theorem addGf_spec {a b : Gf} (settledA : Settled a) (settledB : Settled b) :
    Checked25519.addGf a b = .ok (addGf a b) ∧ Loose (addGf a b) ∧
      value (addGf a b) = value a + value b := by
  have word : ∀ k : Fin 16, Word.add a[k] b[k] = .ok (a[k] + b[k]) ∧
      (a[k] + b[k]).toInt = limb a k + limb b k := by
    intro k
    have := settledA.within k
    have := settledB.within k
    exact Word.add_spec rfl rfl ⟨by omega, by omega⟩
  have limbs : limb (addGf a b) = fun k => limb a k + limb b k :=
    funext fun k => (limb_ofFn _ k).trans (word k).2
  refine ⟨fill_spec fun k => (word k).1, fun k => ?_, ?_⟩
  · have := settledA.within k
    have := settledB.within k
    rw [limbs]
    dsimp only
    omega
  · rw [value, limbs, weigh_add]
    rfl

theorem subGf_spec {a b : Gf} (settledA : Settled a) (settledB : Settled b) :
    Checked25519.subGf a b = .ok (subGf a b) ∧ Loose (subGf a b) ∧
      value (subGf a b) = value a - value b := by
  have word : ∀ k : Fin 16, Word.sub a[k] b[k] = .ok (a[k] - b[k]) ∧
      (a[k] - b[k]).toInt = limb a k - limb b k := by
    intro k
    have := settledA.within k
    have := settledB.within k
    exact Word.sub_spec rfl rfl ⟨by omega, by omega⟩
  have limbs : limb (subGf a b) = fun k => limb a k - limb b k :=
    funext fun k => (limb_ofFn _ k).trans (word k).2
  refine ⟨fill_spec fun k => (word k).1, fun k => ?_, ?_⟩
  · have := settledA.within k
    have := settledB.within k
    rw [limbs]
    dsimp only
    omega
  · rw [value, limbs, weigh_sub]
    rfl

/-! ## The product -/

/-- One partial product adds its weight. -/
theorem accumulate_spec {a b : Gf} (looseA : Loose a) (looseB : Loose b) (i j : Fin 16)
    {t : Vector Int64 31} {M : ℤ} (room : M ≤ 2 ^ 50) (within : ∀ k, -M ≤ limb t k ∧ limb t k ≤ M) :
    Checked25519.accumulate a b i t j =
        .ok (t.set (i.val + j.val) (t[i.val + j.val] + a[i] * b[j])) ∧
      weigh (2 ^ 16) (limb (t.set (i.val + j.val) (t[i.val + j.val] + a[i] * b[j]))) =
        weigh (2 ^ 16) (limb t) + limb a i * limb b j * (2 ^ 16) ^ (i.val + j.val) ∧
      ∀ k, -(M + 2 ^ 36) ≤ limb (t.set (i.val + j.val) (t[i.val + j.val] + a[i] * b[j])) k ∧
        limb (t.set (i.val + j.val) (t[i.val + j.val] + a[i] * b[j])) k ≤ M + 2 ^ 36 := by
  have small : -2 ^ 36 ≤ limb a i * limb b j ∧ limb a i * limb b j ≤ 2 ^ 36 := by
    have left := abs_le.mpr (looseA i)
    have right := abs_le.mpr (looseB j)
    have product := mul_le_mul left right (abs_nonneg _) (by norm_num)
    rw [← abs_mul] at product
    exact abs_le.mp (by norm_num at product ⊢; exact product)
  have here := within ⟨i.val + j.val, by omega⟩
  obtain ⟨times, product⟩ := Word.mul_spec (a := a[i]) (b := b[j]) (x := limb a i)
    (y := limb b j) rfl rfl ⟨by omega, by omega⟩
  obtain ⟨plus, sum⟩ := Word.add_spec (a := t[i.val + j.val])
    (x := limb t ⟨i.val + j.val, by omega⟩) rfl product ⟨by omega, by omega⟩
  have limbs := limb_set t ⟨i.val + j.val, by omega⟩ (t[i.val + j.val] + a[i] * b[j])
  refine ⟨?_, ?_, fun k => ?_⟩
  · rw [Checked25519.accumulate, Checked.bind_of_ok times, Checked.bind_of_ok plus]
    rfl
  · rw [limbs, weigh_update, sum]
    ring
  · rw [limbs, Function.update_apply, sum]
    split
    · omega
    · have := within k
      omega

/-- The prime. -/
def prime25519 : Nat := 2 ^ 255 - 19

/-- The partial products of the first `m` limbs of `a`. -/
structure Accumulated (a b : Gf) (m : Nat) (t : Vector Int64 31) : Prop where
  sum : weigh (2 ^ 16) (limb t) = weigh (2 ^ 16) (upTo m (limb a)) * value b
  within : ∀ k, -(m * 2 ^ 40) ≤ limb t k ∧ limb t k ≤ m * 2 ^ 40

/-- The columns after the first partial products of a row. -/
structure RowUpTo (a b : Gf) (i : Fin 16) (t : Vector Int64 31) (m : Nat)
    (s : Vector Int64 31) : Prop where
  sum : weigh (2 ^ 16) (limb s) = weigh (2 ^ 16) (limb t) +
    limb a i * (2 ^ 16) ^ i.val * weigh (2 ^ 16) (upTo m (limb b))
  within : ∀ k, -(i.val * 2 ^ 40 + m * 2 ^ 36) ≤ limb s k ∧
    limb s k ≤ (i.val * 2 ^ 40 + m * 2 ^ 36 : ℤ)

/-- The partial products of one limb of `a`. -/
theorem row_spec {a b : Gf} (looseA : Loose a) (looseB : Loose b) (i : Fin 16)
    {t : Vector Int64 31} (rows : Accumulated a b i.val t) :
    (List.finRange 16).foldlM (Checked25519.accumulate a b i) t = .ok
        ((List.finRange 16).foldl
          (fun (t : Vector Int64 31) j =>
            t.set (i.val + j.val) (getElem t (i.val + j.val) (sum31 i j) +
              getElem a i (fin16 i) * getElem b j (fin16 j)) (sum31 i j)) t) ∧
      Accumulated a b (i.val + 1)
        ((List.finRange 16).foldl
          (fun (t : Vector Int64 31) j =>
            t.set (i.val + j.val) (getElem t (i.val + j.val) (sum31 i j) +
              getElem a i (fin16 i) * getElem b j (fin16 j)) (sum31 i j)) t) := by
  have position := i.isLt
  have start : RowUpTo a b i t 0 t :=
    ⟨by rw [weigh_upTo_zero]; ring, fun k => by have := rows.within k; omega⟩
  have row : (List.finRange 16).foldlM (Checked25519.accumulate a b i) t = .ok
        ((List.finRange 16).foldl
          (fun (t : Vector Int64 31) j =>
            t.set (i.val + j.val) (t[i.val + j.val] + a[i] * b[j])) t) ∧
      RowUpTo a b i t 16 ((List.finRange 16).foldl
        (fun (t : Vector Int64 31) j =>
          t.set (i.val + j.val) (t[i.val + j.val] + a[i] * b[j])) t) := by
    refine foldlM_finRange start fun j s before => ?_
    have column := j.isLt
    obtain ⟨goes, adds, bounds⟩ := accumulate_spec looseA looseB i j
      (show (i.val * 2 ^ 40 + j.val * 2 ^ 36 : ℤ) ≤ 2 ^ 50 by omega) before.within
    refine ⟨goes, ?_, fun k => ?_⟩
    · rw [adds, before.sum, weigh_upTo_succ]
      ring
    · have := bounds k
      push_cast
      omega
  obtain ⟨runs, sum, within⟩ := row
  refine ⟨runs, ⟨?_, fun k => ?_⟩⟩
  · rw [sum, rows.sum, weigh_upTo_succ, upTo_all]
    show _ = _ * weigh (2 ^ 16) (limb b)
    rw [value]
    ring
  · have := within k
    push_cast at this ⊢
    omega

/-- Two passes of carries settle limbs of up to 50 bits. -/
theorem carries_settle {r : Gf} (within : ∀ k, -2 ^ 50 ≤ limb r k ∧ limb r k ≤ 2 ^ 50) :
    Checked25519.car25519 r = .ok (car25519 r) ∧
      Checked25519.car25519 (car25519 r) = .ok (car25519 (car25519 r)) ∧
      Settled (car25519 (car25519 r)) ∧
      value (car25519 (car25519 r)) ≡ value r [ZMOD prime25519] := by
  have wide := weigh_within (B := 2 ^ 16) (by norm_num) within
  have ones : (weigh (2 ^ 16) fun _ : Fin 16 => 1) ≤ 2 ^ 241 := by
    simp [weigh, Fin.sum_univ_succ]
  obtain ⟨first, value1, reduced1, low1⟩ := car25519_spec (o := r) fun k => by
    have := within k
    omega
  have quotient1 : -2 ^ 36 ≤ value r / 2 ^ 256 ∧ value r / 2 ^ 256 ≤ 2 ^ 36 := by
    rw [value]
    omega
  obtain ⟨second, value2, reduced2, low2⟩ := car25519_spec (o := car25519 r) fun k => by
    by_cases zero : k = 0
    · rw [zero, low1]
      omega
    · have := reduced1 k zero
      omega
  have quotient2 : -1 ≤ value (car25519 r) / 2 ^ 256 ∧ value (car25519 r) / 2 ^ 256 ≤ 1 := by
    omega
  refine ⟨first, second, ⟨by omega, reduced2⟩, ?_⟩
  rw [value2, value1]
  refine Int.modEq_iff_dvd.mpr ⟨2 * (value r / 2 ^ 256) + 2 * (value (car25519 r) / 2 ^ 256), ?_⟩
  rw [value1, prime25519]
  push_cast
  ring

/-- The upper limbs of a product folded into the lower ones. -/
def folded (t : Vector Int64 31) (k : Fin 16) : ℤ :=
  if inside : k.val < 15 then
    limb t ⟨k.val, fin31 k⟩ + 38 * limb t ⟨k.val + 16, upper31 k inside⟩
  else limb t ⟨k.val, fin31 k⟩

theorem fold_spec {t : Vector Int64 31} (within : ∀ k, -2 ^ 44 ≤ limb t k ∧ limb t k ≤ 2 ^ 44)
    (k : Fin 16) :
    (if inside : k.val < 15 then do
        let y ← Word.mul 38 (getElem t (k.val + 16) (upper31 k inside))
        Word.add (getElem t k.val (fin31 k)) y
      else pure (getElem t k.val (fin31 k))) =
        .ok (if inside : k.val < 15 then getElem t k.val (fin31 k) +
          38 * getElem t (k.val + 16) (upper31 k inside) else getElem t k.val (fin31 k)) ∧
      (if inside : k.val < 15 then getElem t k.val (fin31 k) +
          38 * getElem t (k.val + 16) (upper31 k inside) else getElem t k.val (fin31 k)).toInt =
        folded t k := by
  rw [folded]
  split
  · rename_i inside
    have upper := within ⟨k.val + 16, by omega⟩
    have lower := within ⟨k.val, by omega⟩
    obtain ⟨times, product⟩ := Word.mul_spec (a := 38) (b := t[k.val + 16]) (x := 38)
      (y := limb t ⟨k.val + 16, by omega⟩) rfl rfl ⟨by omega, by omega⟩
    obtain ⟨plus, sum⟩ := Word.add_spec (a := t[k.val]) (x := limb t ⟨k.val, by omega⟩) rfl product
      ⟨by omega, by omega⟩
    exact ⟨(Checked.bind_of_ok times _).trans plus, sum⟩
  · exact ⟨rfl, rfl⟩

/-- Folding takes `2^256 - 38` times the upper limbs off. -/
theorem weigh_folded (t : Vector Int64 31) :
    weigh (2 ^ 16) (folded t) = weigh (2 ^ 16) (limb t) -
      (2 ^ 256 - 38) * weigh (2 ^ 16) fun k : Fin 15 => limb t ⟨16 + k.val, by omega⟩ := by
  have split : weigh (2 ^ 16) (limb t) =
      weigh (2 ^ 16) (fun k : Fin 16 => limb t ⟨k.val, by omega⟩) +
        (2 ^ 16) ^ 16 * weigh (2 ^ 16) fun k : Fin 15 => limb t ⟨16 + k.val, by omega⟩ :=
    weigh_append (2 ^ 16) (m := 16) (n := 15) (limb t)
  have low := weigh_castSucc (2 ^ 16) fun k : Fin 16 => limb t ⟨k.val, by omega⟩
  have sum := weigh_castSucc (2 ^ 16) (folded t)
  have added : (fun k : Fin 15 => folded t k.castSucc) = fun k : Fin 15 =>
      limb t ⟨k.castSucc.val, by omega⟩ + 38 * limb t ⟨16 + k.val, by omega⟩ := by
    funext k
    rw [folded, dif_pos (show k.castSucc.val < 15 from k.isLt)]
    simp only [Fin.val_castSucc, Nat.add_comm k.val 16]
  have top : folded t (Fin.last 15) = limb t ⟨(Fin.last 15).val, by decide⟩ := dif_neg (by decide)
  rw [sum, added, top, weigh_add, weigh_mul, split, low]
  ring

/-- **A product** of loose elements: no overflow, settled limbs, congruent modulo the prime. -/
theorem mulGf_spec {a b : Gf} (looseA : Loose a) (looseB : Loose b) :
    Checked25519.mulGf a b = .ok (mulGf a b) ∧ Settled (mulGf a b) ∧
      value (mulGf a b) ≡ value a * value b [ZMOD prime25519] := by
  have start : Accumulated a b 0 (Vector.replicate 31 0) := by
    have zero : limb (Vector.replicate 31 0) = fun _ => 0 := by
      funext k
      simp [limb]
    refine ⟨?_, fun k => ?_⟩
    · rw [zero, weigh_zero, weigh_upTo_zero, zero_mul]
    · rw [zero]
      simp
  obtain ⟨runs, rows⟩ := foldlM_finRange (n := 16) start fun i t => row_spec looseA looseB i
  have within : ∀ k, -2 ^ 44 ≤ limb ((List.finRange 16).foldl
      (fun t i => (List.finRange 16).foldl
        (fun (t : Vector Int64 31) j =>
          t.set (i.val + j.val) (t[i.val + j.val] + a[i] * b[j])) t) (Vector.replicate 31 0)) k ∧
      limb ((List.finRange 16).foldl
      (fun t i => (List.finRange 16).foldl
        (fun (t : Vector Int64 31) j =>
          t.set (i.val + j.val) (t[i.val + j.val] + a[i] * b[j])) t) (Vector.replicate 31 0)) k ≤
        2 ^ 44 := by
    intro k
    have := rows.within k
    omega
  have product := rows.sum
  rw [upTo_all] at product
  rw [Checked25519.mulGf, Checked.bind_of_ok runs, mulGf]
  generalize (List.finRange 16).foldl (fun t i => (List.finRange 16).foldl
    (fun (t : Vector Int64 31) j =>
      t.set (i.val + j.val) (t[i.val + j.val] + a[i] * b[j])) t) (Vector.replicate 31 0) = t at *
  rw [Checked.bind_of_ok (fill_spec fun k => (fold_spec within k).1)]
  have limbs : ∀ k, limb (Vector.ofFn fun i : Fin 16 =>
      if inside : i.val < 15 then t[i.val] + 38 * t[i.val + 16] else t[i.val]) k = folded t k :=
    fun k => (limb_ofFn _ k).trans (fold_spec within k).2
  generalize Vector.ofFn (fun i : Fin 16 =>
      if inside : i.val < 15 then t[i.val] + 38 * t[i.val + 16] else t[i.val]) = r at *
  obtain ⟨first, second, settled, congruent⟩ := carries_settle (r := r) fun k => by
    rw [limbs, folded]
    split
    · have := within ⟨k.val, by omega⟩
      have := within ⟨k.val + 16, by omega⟩
      omega
    · have := within ⟨k.val, by omega⟩
      omega
  refine ⟨(Checked.bind_of_ok first _).trans second, settled, congruent.trans ?_⟩
  rw [value, funext limbs, weigh_folded, product]
  refine Int.modEq_iff_dvd.mpr
    ⟨2 * weigh (2 ^ 16) fun k : Fin 15 => limb t ⟨16 + k.val, by omega⟩, ?_⟩
  rw [prime25519, value]
  push_cast
  ring

end RustyPenguin.Crypto
