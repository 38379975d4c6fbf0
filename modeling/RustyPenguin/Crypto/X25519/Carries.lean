import RustyPenguin.Crypto.X25519
import RustyPenguin.Foundation.Folds
import RustyPenguin.Foundation.Weights

/-!
# The carries of sixteen limbs
-/

set_option autoImplicit false

namespace RustyPenguin.Crypto

open Weights Positions

/-! ## Limbs as integers -/

/-- The limbs of an array, as integers. -/
def limb {n : Nat} (o : Vector Int64 n) (k : Fin n) : ℤ := o[k].toInt

/-- The number that the limbs of a field element hold. -/
def value (o : Gf) : ℤ := weigh (2 ^ 16) (limb o)

theorem limb_set {n : Nat} (o : Vector Int64 n) (i : Fin n) (x : Int64) :
    limb (o.set i.val x i.isLt) = Function.update (limb o) i x.toInt := by
  funext k
  rw [limb, Function.update_apply]
  split
  · rename_i same
    subst same
    simp
  · rename_i other
    have apart : i.val ≠ k.val := fun same => other (Fin.ext same.symm)
    simp [limb, Vector.getElem_set_ne, apart]

/-! ## One carry -/

/-- The limbs after the carry out of one of them. -/
def carried (f : Fin 16 → ℤ) (i : Fin 16) : Fin 16 → ℤ :=
  if inside : i.val < 15 then carryAt (2 ^ 16) f ⟨i.val, inside⟩
  else
    Function.update
      (Function.update f ⟨0, zero16⟩ (f ⟨0, zero16⟩ + 38 * (f ⟨15, fifteen16⟩ / 2 ^ 16)))
      ⟨15, fifteen16⟩ (f ⟨15, fifteen16⟩ % 2 ^ 16)

theorem getElem_set_next (o : Gf) (i : Fin 16) (x : Int64) (inside : i.val + 1 < 16) :
    (o.set i.val x)[i.val + 1] = o[i.val + 1] :=
  Vector.getElem_set_ne _ _ (by omega)

theorem getElem_set_first (o : Gf) (i : Fin 16) (x : Int64) (last : i.val = 15) :
    getElem (o.set i.val x) 0 zero16 = getElem o 0 zero16 :=
  Vector.getElem_set_ne _ _ (by omega)

theorem getElem_set_other (o : Gf) (i : Fin 16) (x y : Int64) {k : Nat} (inside : k < 16)
    (apart : k ≠ i.val) : ((o.set i.val x).set k y)[i] = x := by
  simp [Vector.getElem_set_ne, apart]

/-- What a limb keeps when it is raised and its carry taken off. -/
theorem lowered_limb (x : ℤ) : x + 65536 - (x / 2 ^ 16 + 1) * 2 ^ 16 = x % 2 ^ 16 := by
  omega

theorem carry_spec {o : Gf} {i : Fin 16} (bounded : ∀ k, -2 ^ 62 ≤ limb o k ∧ limb o k ≤ 2 ^ 62) :
    Checked25519.carry o i = .ok (carry o i) ∧ limb (carry o i) = carried (limb o) i := by
  have here := bounded i
  obtain ⟨raise, v⟩ := Word.add_spec (a := o[i]) (b := 0x10000) (x := limb o i) (y := 0x10000) rfl rfl
    ⟨by omega, by omega⟩
  have c : ((o[i] + 0x10000) >>> 16).toInt = limb o i / 2 ^ 16 + 1 := by
    rw [Word.toInt_shr16 v]
    omega
  obtain ⟨lessen, above⟩ := Word.sub_spec (b := 1) (y := 1) c rfl ⟨by omega, by omega⟩
  obtain ⟨shift, w⟩ := Word.shl16_spec c ⟨by omega, by omega⟩
  rw [Checked25519.carry, Checked.bind_of_ok raise, carry]
  dsimp only
  rw [Checked.bind_of_ok lessen]
  generalize o[i] + 0x10000 = raised at *
  generalize raised >>> 16 = quotient at *
  generalize quotient <<< 16 = whole at *
  by_cases inside : i.val < 15
  · have next := bounded ⟨i.val + 1, by omega⟩
    have other := getElem_set_next o i raised (Nat.succ_lt_succ inside)
    have other' := getElem_set_other o i raised ((o.set i.val raised)[i.val + 1] + (quotient - 1))
      (Nat.succ_lt_succ inside) (Nat.succ_ne_self i.val)
    obtain ⟨passOn, sum⟩ := Word.add_spec (x := limb o ⟨i.val + 1, by omega⟩)
      (congrArg Int64.toInt other) above ⟨by omega, by omega⟩
    rw [dif_pos inside, dif_pos inside, Checked.bind_of_ok passOn, pure_bind,
      Checked.bind_of_ok shift]
    obtain ⟨lower, low⟩ := Word.sub_spec ((congrArg Int64.toInt other').trans v) w
      ⟨by omega, by omega⟩
    rw [Checked.bind_of_ok lower]
    refine ⟨rfl, ?_⟩
    have apart : (⟨i.val + 1, by omega⟩ : Fin 16) ≠ i := fun same => by
      have := congrArg Fin.val same
      exact absurd this (by simp)
    rw [limb_set, limb_set _ ⟨i.val + 1, by omega⟩, limb_set, low, sum, carried, dif_pos inside,
      carryAt, Function.update_comm apart.symm, Function.update_idem]
    show Function.update (Function.update (limb o) ⟨i.val + 1, _⟩
      (limb o ⟨i.val + 1, _⟩ + (limb o i / 2 ^ 16 + 1 - 1))) i
        (limb o i + 65536 - (limb o i / 2 ^ 16 + 1) * 2 ^ 16) =
      Function.update (Function.update (limb o) ⟨i.val + 1, _⟩
        (limb o ⟨i.val + 1, _⟩ + limb o i / 2 ^ 16)) i (limb o i % 2 ^ 16)
    rw [add_sub_cancel_right, lowered_limb]
  · have first := bounded 0
    have last : i = 15 := Fin.ext (by omega)
    have apart : i ≠ 0 := fun same => by rw [last] at same; exact absurd same (by decide)
    have other := getElem_set_first o i raised (congrArg Fin.val last)
    obtain ⟨times, product⟩ := Word.mul_spec (a := 38) (x := 38) rfl above ⟨by omega, by omega⟩
    obtain ⟨passOn, sum⟩ := Word.add_spec (x := limb o 0) (congrArg Int64.toInt other) product
      ⟨by omega, by omega⟩
    have other' := getElem_set_other o i raised ((o.set i.val raised)[0] + 38 * (quotient - 1)) (k := 0)
      (by decide) (by rw [last]; decide)
    obtain ⟨lower, low⟩ := Word.sub_spec ((congrArg Int64.toInt other').trans v) w
      ⟨by omega, by omega⟩
    rw [dif_neg inside, dif_neg inside, Checked.bind_of_ok times, Checked.bind_of_ok passOn,
      pure_bind, Checked.bind_of_ok shift]
    refine ⟨Checked.bind_of_ok lower _, ?_⟩
    have first' : ∀ (o : Gf) (x : Int64), limb (o.set 0 x) = Function.update (limb o) 0 x.toInt :=
      fun o x => limb_set o 0 x
    rw [limb_set, first', limb_set, sum, low, carried, dif_neg inside,
      show (⟨15, fifteen16⟩ : Fin 16) = 15 from rfl, show (⟨0, zero16⟩ : Fin 16) = 0 from rfl,
      Function.update_comm apart, Function.update_idem, ← last]
    rw [add_sub_cancel_right]
    congr 1
    exact lowered_limb (limb o i)

/-! ## One pass of carries -/

/-- The limbs of `g` after the carries of the first `m` limbs of `o`. -/
structure CarriedUpTo (o : Gf) (m : Nat) (g : Gf) : Prop where
  same : value g = value o
  reduced : ∀ k, k.val < m → 0 ≤ limb g k ∧ limb g k < 2 ^ 16
  here : ∀ k, k.val = m → limb o k - 2 ^ 46 ≤ limb g k ∧ limb g k ≤ limb o k + 2 ^ 46
  above : ∀ k, m < k.val → limb g k = limb o k
  first : limb g 0 = if m = 0 then limb o 0 else limb o 0 % 2 ^ 16

theorem carriedUpTo_succ {o g : Gf} (bounded : ∀ k, -2 ^ 61 ≤ limb o k ∧ limb o k ≤ 2 ^ 61)
    (i : Fin 15) (upTo : CarriedUpTo o i.val g) :
    Checked25519.carry g i.castSucc = .ok (carry g i.castSucc) ∧
      CarriedUpTo o (i.val + 1) (carry g i.castSucc) := by
  have all : ∀ k, -2 ^ 62 ≤ limb g k ∧ limb g k ≤ 2 ^ 62 := by
    intro k
    have original := bounded k
    rcases Nat.lt_trichotomy k.val i.val with below | at_ | above
    · have := upTo.reduced k below
      omega
    · have := upTo.here k at_
      omega
    · rw [upTo.above k above]
      omega
  obtain ⟨runs, after⟩ := carry_spec (i := i.castSucc) all
  have limbs : limb (carry g i.castSucc) = carryAt (2 ^ 16) (limb g) i := by
    rw [after, carried, dif_pos (show i.castSucc.val < 15 from i.isLt)]
    rfl
  have here := upTo.here i.castSucc rfl
  have original := bounded i.castSucc
  refine ⟨runs, ⟨?_, ?_, ?_, ?_, ?_⟩⟩
  · rw [value, limbs, weigh_carryAt]
    exact upTo.same
  · intro k below
    rw [limbs]
    by_cases self : k.val = i.val
    · have this : k = i.castSucc := Fin.ext self
      rw [this, carryAt_self]
      omega
    · have inside : k.val < 15 := by omega
      have lower : (⟨k.val, inside⟩ : Fin 15) < i := Fin.lt_def.mpr (by show k.val < i.val; omega)
      rw [show k = (⟨k.val, inside⟩ : Fin 15).castSucc from rfl, carryAt_below _ lower]
      exact upTo.reduced _ (by show k.val < i.val; omega)
  · intro k next
    have this : k = i.succ := Fin.ext next
    rw [limbs, this, carryAt_next, upTo.above i.succ (by rw [Fin.val_succ]; omega)]
    omega
  · intro k above
    rw [limbs, carryAt_above _ (Fin.lt_def.mpr (by rw [Fin.val_succ]; exact above)),
      upTo.above k (by omega)]
  · rw [limbs, if_neg (Nat.succ_ne_zero _)]
    by_cases start : i.val = 0
    · have this : i = 0 := Fin.ext start
      have first := upTo.first
      rw [if_pos start] at first
      rw [this, show (0 : Fin 16) = (0 : Fin 15).castSucc from rfl, carryAt_self]
      exact congrArg (· % 2 ^ 16) first
    · have first := upTo.first
      rw [if_neg start] at first
      have lower : (0 : Fin 15) < i := Fin.lt_def.mpr (Nat.pos_of_ne_zero start)
      exact (carryAt_below (B := 2 ^ 16) (limb g) lower).trans first

/-- **One pass of carries**: no overflow below `2^61`; the number loses what its multiple of
`2^256` weighs more than 38 times it, and all limbs but the first are reduced. -/
theorem car25519_spec {o : Gf} (bounded : ∀ k, -2 ^ 61 ≤ limb o k ∧ limb o k ≤ 2 ^ 61) :
    Checked25519.car25519 o = .ok (car25519 o) ∧
      value (car25519 o) = value o - (2 ^ 256 - 38) * (value o / 2 ^ 256) ∧
      (∀ k, k ≠ 0 → 0 ≤ limb (car25519 o) k ∧ limb (car25519 o) k < 2 ^ 16) ∧
      limb (car25519 o) 0 = limb o 0 % 2 ^ 16 + 38 * (value o / 2 ^ 256) := by
  have positions : List.finRange 16 = (List.finRange 15).map Fin.castSucc ++ [15] :=
    List.finRange_succ_last
  have start : CarriedUpTo o 0 o :=
    ⟨rfl, fun k below => absurd below (Nat.not_lt_zero _), fun k _ => ⟨by omega, by omega⟩,
      fun k _ => rfl, rfl⟩
  obtain ⟨runs, upTo⟩ := foldlM_finRange (n := 15) start fun i g => carriedUpTo_succ bounded i
  rw [Checked25519.car25519, car25519, positions, List.foldlM_append, List.foldlM_map, runs,
    List.foldl_append, List.foldl_map]
  generalize (List.finRange 15).foldl (fun g i => carry g i.castSucc) o = g at *
  have reduced : ∀ k : Fin 15, 0 ≤ limb g k.castSucc ∧ limb g k.castSucc < 2 ^ 16 :=
    fun k => upTo.reduced k.castSucc k.isLt
  have top := upTo.here 15 rfl
  have original := bounded 15
  have all : ∀ k, -2 ^ 62 ≤ limb g k ∧ limb g k ≤ 2 ^ 62 := by
    intro k
    by_cases inside : k.val < 15
    · have := upTo.reduced k inside
      omega
    · have last : k = 15 := Fin.ext (by omega)
      rw [last]
      omega
  have quotient : limb g 15 / 2 ^ 16 = value o / 2 ^ 256 := by
    have split := weigh_castSucc (2 ^ 16) (limb g)
    obtain ⟨least, most⟩ := weigh_bounds reduced
    rw [← upTo.same, value, split]
    generalize weigh (2 ^ 16) (fun k : Fin 15 => limb g k.castSucc) = low at *
    show limb g 15 / 2 ^ 16 = (low + limb g 15 * (2 ^ 16) ^ 15) / 2 ^ 256
    omega
  obtain ⟨carries, limbs⟩ := carry_spec (i := 15) all
  rw [carried, dif_neg (by decide), show (⟨15, fifteen16⟩ : Fin 16) = 15 from rfl,
    show (⟨0, zero16⟩ : Fin 16) = 0 from rfl, quotient] at limbs
  refine ⟨Checked.bind_of_ok carries _, ?_, ?_, ?_⟩
  · show weigh (2 ^ 16) (limb (carry g 15)) = _
    rw [limbs, weigh_update, weigh_update, Function.update_of_ne (by decide)]
    show value g + (limb g 0 + 38 * (value o / 2 ^ 256) - limb g 0) * (2 ^ 16) ^ 0 +
      (limb g 15 % 2 ^ 16 - limb g 15) * (2 ^ 16) ^ 15 = _
    rw [upTo.same]
    omega
  · intro k nonzero
    show 0 ≤ limb (carry g 15) k ∧ limb (carry g 15) k < 2 ^ 16
    rw [limbs]
    by_cases last : k = 15
    · rw [last, Function.update_self]
      exact ⟨Int.emod_nonneg _ (by decide), Int.emod_lt_of_pos _ (by decide)⟩
    · rw [Function.update_of_ne last, Function.update_of_ne nonzero]
      exact upTo.reduced k (by omega)
  · show limb (carry g 15) 0 = _
    rw [limbs, Function.update_of_ne (by decide), Function.update_self, upTo.first,
      if_neg (by decide)]

end RustyPenguin.Crypto
