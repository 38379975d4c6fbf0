import Mathlib.Data.Nat.Bitwise
import RustyPenguin.Crypto.X25519.Packing

/-!
# X25519 is the ladder in the field

Every scalar and every coordinate, given as bytes, decode to numbers; the limbs of the
coordinate hold it modulo `2^255`, and the bits of the clamped scalar are those of the decoded
one. So the function never overflows and its bytes are the canonical ones of the ladder's
abscissa.
-/

set_option autoImplicit false

namespace RustyPenguin.Crypto

open Weights

/-- The number that bytes hold, the lowest first. -/
def littleEndian (b : Vector UInt8 32) : Nat := ∑ k : Fin 32, b[k].toNat * 256 ^ k.val

/-- The scalar of 32 bytes: a multiple of eight with bit 254 the highest one. -/
def decodeScalar (n : Vector UInt8 32) : Nat := 2 ^ 254 + littleEndian n % 2 ^ 254 / 8 * 8

/-- The coordinate of 32 bytes, whose highest bit is ignored. -/
def decodeCoordinate (p : Vector UInt8 32) : Field25519 := (littleEndian p % 2 ^ 255 : ℕ)

theorem littleEndian_weigh (b : Vector UInt8 32) :
    (littleEndian b : ℤ) = weigh 256 fun k : Fin 32 => (b[k].toNat : ℤ) := by
  rw [littleEndian, weigh]
  push_cast
  rfl

theorem byte_reduced (b : Vector UInt8 32) (k : Fin 32) :
    0 ≤ (b[k].toNat : ℤ) ∧ (b[k].toNat : ℤ) < 256 :=
  ⟨Int.natCast_nonneg _, by exact_mod_cast UInt8.toNat_lt b[k]⟩

/-! ## The coordinate -/

/-- A limb of two bytes. -/
theorem toInt_pair (a b : UInt8) :
    (Int64.ofNat a.toNat + (Int64.ofNat b.toNat <<< 8)).toInt = a.toNat + 256 * b.toNat := by
  have low := UInt8.toNat_lt a
  have high := UInt8.toNat_lt b
  have left : (Int64.ofNat a.toNat).toInt = (a.toNat : ℤ) := Int64.toInt_ofNat_of_lt (by omega)
  have right : (Int64.ofNat b.toNat).toInt = (b.toNat : ℤ) := Int64.toInt_ofNat_of_lt (by omega)
  have shifted : (Int64.ofNat b.toNat <<< 8).toInt = (b.toNat : ℤ) * 2 ^ 8 :=
    Word.toInt_shl (n := 8) right ⟨by omega, by omega⟩
  rw [(Word.add_spec left shifted ⟨by omega, by omega⟩).2]
  omega

theorem unpack25519_spec (p : Vector UInt8 32) :
    Reduced (unpack25519 p) ∧ value (unpack25519 p) = (littleEndian p % 2 ^ 255 : ℕ) := by
  let pair : Fin 16 → ℤ := fun k => p[2 * k.val].toNat + 256 * p[2 * k.val + 1].toNat
  have pairReduced : ∀ k, 0 ≤ pair k ∧ pair k < 2 ^ 16 := by
    intro k
    have low := UInt8.toNat_lt p[2 * k.val]
    have high := UInt8.toNat_lt p[2 * k.val + 1]
    show 0 ≤ (p[2 * k.val].toNat : ℤ) + 256 * p[2 * k.val + 1].toNat ∧
      (p[2 * k.val].toNat : ℤ) + 256 * p[2 * k.val + 1].toNat < 2 ^ 16
    omega
  have limbs : limb (unpack25519 p) = Function.update pair 15 (pair 15 % 2 ^ 15) := by
    have paired : limb (Vector.ofFn fun i : Fin 16 =>
        Int64.ofNat p[2 * i.val].toNat + (Int64.ofNat p[2 * i.val + 1].toNat <<< 8)) = pair :=
      funext fun k => (limb_ofFn _ k).trans (toInt_pair _ _)
    have top := congrFun paired 15
    rw [unpack25519]
    generalize Vector.ofFn (fun i : Fin 16 =>
      Int64.ofNat p[2 * i.val].toNat + (Int64.ofNat p[2 * i.val + 1].toNat <<< 8)) = o at *
    have last : limb (o.set 15 (o[15] &&& 0x7fff)) =
        Function.update (limb o) 15 (o[15] &&& 0x7fff).toInt := limb_set o 15 _
    rw [last, Word.toInt_and_mask o[15] 0x7fff (k := 15) (by decide) rfl, paired, ← top]
    rfl
  refine ⟨fun k => ?_, ?_⟩
  · have bounds := pairReduced k
    rw [limbs, Function.update_apply]
    split
    · omega
    · exact bounds
  · have whole : (littleEndian p : ℤ) = weigh (2 ^ 16) pair :=
      (littleEndian_weigh p).trans (weigh_pairs (n := 16) 256 _)
    have split := weigh_castSucc (2 ^ 16) pair
    obtain ⟨least, most⟩ := weigh_bounds (f := fun k : Fin 15 => pair k.castSucc) fun k =>
      pairReduced k.castSucc
    rw [value, limbs, weigh_update, Int.natCast_emod, whole, Nat.cast_pow, split]
    generalize weigh (2 ^ 16) (fun k : Fin 15 => pair k.castSucc) = low at *
    show low + pair 15 * (2 ^ 16) ^ 15 + (pair 15 % 2 ^ 15 - pair 15) * (2 ^ 16) ^ 15 =
      (low + pair 15 * (2 ^ 16) ^ 15) % 2 ^ 255
    omega

theorem unpack25519_stands (p : Vector UInt8 32) :
    Stands (unpack25519 p) (decodeCoordinate p) := by
  obtain ⟨reduced, holds⟩ := unpack25519_spec p
  have first := reduced 0
  refine ⟨⟨by omega, fun k _ => reduced k⟩, ?_⟩
  rw [element, holds, Int.cast_natCast]
  rfl

/-! ## The scalar -/

theorem littleEndian_digit (b : Vector UInt8 32) (k : Fin 32) :
    littleEndian b / 256 ^ k.val % 256 = b[k].toNat := by
  have digit := weigh_digit (byte_reduced b) k
  rw [← littleEndian_weigh] at digit
  exact_mod_cast digit

theorem scalarBit_eq (z : Vector UInt8 32) {i : Nat} (inside : i < 256) :
    scalarBit z i = bitWord ((littleEndian z).testBit i) := by
  have here : byte z.toList (i / 8) = z[i / 8] := by
    rw [byte, List.getD_eq_getElem _ _ (by simp; omega)]
    simp
  have digit : littleEndian z / 256 ^ (i / 8) % 256 = z[i / 8].toNat :=
    littleEndian_digit z ⟨i / 8, by omega⟩
  have bit : (littleEndian z).testBit i = z[i / 8].toNat.testBit (i % 8) := by
    rw [← digit, show 256 = 2 ^ 8 from rfl, ← pow_mul, Nat.testBit_mod_two_pow,
      decide_eq_true (Nat.mod_lt _ (by omega)), Bool.true_and, Nat.testBit_div_two_pow]
    congr 1
    omega
  rw [scalarBit, here, bit, Nat.testBit_eq_decide_div_mod_eq, bitWord]
  rcases Nat.mod_two_eq_zero_or_one (z[i / 8].toNat / 2 ^ (i % 8)) with even | odd
  · rw [even]
    rfl
  · rw [odd]
    rfl

set_option maxRecDepth 16000 in
theorem toNat_low (x : UInt8) : (x &&& 248).toNat = x.toNat / 8 * 8 := by
  have all : ∀ m : Fin 256, m.val &&& 248 = m.val / 8 * 8 := by decide
  rw [UInt8.toNat_and]
  exact all ⟨x.toNat, UInt8.toNat_lt x⟩

set_option maxRecDepth 16000 in
theorem toNat_high (x : UInt8) : ((x &&& 127) ||| 64).toNat = x.toNat % 64 + 64 := by
  have all : ∀ m : Fin 256, m.val &&& 127 ||| 64 = m.val % 64 + 64 := by decide
  rw [UInt8.toNat_or, UInt8.toNat_and]
  exact all ⟨x.toNat, UInt8.toNat_lt x⟩

/-- The bytes of an array, as integers. -/
def byteOf (b : Vector UInt8 32) (k : Fin 32) : ℤ := b[k].toNat

theorem byteOf_set (b : Vector UInt8 32) (i : Fin 32) (x : UInt8) :
    byteOf (b.set i.val x i.isLt) = Function.update (byteOf b) i x.toNat := by
  funext k
  rw [byteOf, Function.update_apply]
  split
  · rename_i same
    subst same
    simp
  · rename_i other
    have apart : i.val ≠ k.val := fun same => other (Fin.ext same.symm)
    simp [byteOf, Vector.getElem_set_ne, apart]

theorem littleEndian_clamp (n : Vector UInt8 32) : littleEndian (clamp n) = decodeScalar n := by
  have bytes : byteOf (clamp n) = Function.update (Function.update (byteOf n) 31
      (byteOf n 31 % 64 + 64)) 0 (byteOf n 0 / 8 * 8) := by
    have first : (n.set 31 ((n[31] &&& 127) ||| 64))[0] = n[0] :=
      Vector.getElem_set_ne _ _ (by omega)
    have high : byteOf (n.set 31 ((n[31] &&& 127) ||| 64)) =
        Function.update (byteOf n) 31 ((n[31] &&& 127) ||| 64).toNat := byteOf_set n 31 _
    have low : ∀ (z : Vector UInt8 32) (x : UInt8), byteOf (z.set 0 x) =
        Function.update (byteOf z) 0 x.toNat := fun z x => byteOf_set z 0 x
    rw [clamp, low, high, first, toNat_low, toNat_high]
    rfl
  have split : (littleEndian n : ℤ) = byteOf n 0 + 256 *
      (weigh 256 (fun k : Fin 30 => byteOf n k.castSucc.succ) + byteOf n 31 * 256 ^ 30) := by
    rw [littleEndian_weigh, show weigh 256 (fun k : Fin 32 => (n[k].toNat : ℤ)) = _ from
      weigh_succ (n := 31) 256 (byteOf n), weigh_castSucc]
    rfl
  obtain ⟨least, most⟩ := weigh_bounds (f := fun k : Fin 30 => byteOf n k.castSucc.succ) fun k =>
    byte_reduced n k.castSucc.succ
  have clamped : (littleEndian (clamp n) : ℤ) = littleEndian n +
      (byteOf n 31 % 64 + 64 - byteOf n 31) * 256 ^ 31 +
        (byteOf n 0 / 8 * 8 - byteOf n 0) * 256 ^ 0 := by
    rw [littleEndian_weigh, littleEndian_weigh, show weigh 256 (fun k : Fin 32 =>
      ((clamp n)[k].toNat : ℤ)) = weigh 256 (byteOf (clamp n)) from rfl, bytes, weigh_update,
      weigh_update, Function.update_of_ne (by decide)]
    rfl
  have low := byte_reduced n 0
  have high := byte_reduced n 31
  change 0 ≤ byteOf n 0 ∧ byteOf n 0 < 256 at low
  change 0 ≤ byteOf n 31 ∧ byteOf n 31 < 256 at high
  generalize weigh 256 (fun k : Fin 30 => byteOf n k.castSucc.succ) = middle at *
  rw [decodeScalar]
  omega

/-! ## The function -/

/-- **X25519** never overflows, and gives the canonical bytes of the ladder's abscissa, computed
in the field from the decoded scalar and coordinate. -/
theorem x25519_refines_ladder (n p : Vector UInt8 32) :
    Checked25519.x25519 n p = .ok (x25519 n p) ∧
      x25519 n p = encode (ladder (decodeScalar n) (decodeCoordinate p)) := by
  have coordinate := unpack25519_stands p
  have one : Stands (gf0.set 0 1) 1 :=
    ⟨⟨by decide, by decide⟩, by rw [element, show value (gf0.set 0 1) = 1 by decide, Int.cast_one]⟩
  have zero : Stands gf0 0 :=
    ⟨⟨by decide, by decide⟩, by rw [element, show value gf0 = 0 by decide, Int.cast_zero]⟩
  have start := Follows.unswapped one coordinate zero one
  have bits : ∀ t ∈ List.range 255,
      scalarBit (clamp n) t = bitWord ((decodeScalar n).testBit t) := by
    intro t member
    rw [scalarBit_eq _ (Nat.lt_succ_of_lt (List.mem_range.mp member)), littleEndian_clamp]
  obtain ⟨runs, last⟩ := run_follows coordinate.loosely start bits
  obtain ⟨inverts, inverse⟩ := inv25519_stands last.c
  obtain ⟨multiplies, quotient⟩ := mulGf_stands last.a.loosely inverse.loosely
  obtain ⟨packs, bytes⟩ := pack25519_spec quotient
  rw [Checked25519.x25519, x25519, Checked.bind_of_ok runs, Checked.bind_of_ok inverts, Checked.bind_of_ok multiplies]
  exact ⟨packs, bytes⟩

end RustyPenguin.Crypto
