import Mathlib.Tactic.NormNum
import RustyPenguin.Foundation.Checked

/-!
# Signed words that must not overflow

Addition, subtraction, multiplication and shift of signed 64-bit words that fault where the
exact result leaves the word, and what the words compute where it does not: the word operation
of the same name, with the exact integer as its value.
-/

set_option autoImplicit false

namespace RustyPenguin.Crypto

/-- The integers of a signed 64-bit word. -/
def FitsWord (x : ℤ) : Prop := -2 ^ 63 ≤ x ∧ x < 2 ^ 63

instance (x : ℤ) : Decidable (FitsWord x) := inferInstanceAs (Decidable (_ ∧ _))

namespace Word

/-- A word whose exact value must fit. -/
def guarded (exact : ℤ) (x : Int64) : Checked Int64 :=
  if FitsWord exact then pure x else Checked.fault

def add (a b : Int64) : Checked Int64 := guarded (a.toInt + b.toInt) (a + b)

def sub (a b : Int64) : Checked Int64 := guarded (a.toInt - b.toInt) (a - b)

def mul (a b : Int64) : Checked Int64 := guarded (a.toInt * b.toInt) (a * b)

def shl16 (a : Int64) : Checked Int64 := guarded (a.toInt * 2 ^ 16) (a <<< 16)

theorem bmod_of_fits {x : ℤ} (fits : FitsWord x) : x.bmod (2 ^ 64) = x := by
  obtain ⟨low, high⟩ := fits
  rw [Int.bmod_eq_of_le (by omega) (by omega)]

variable {a b : Int64} {x y : ℤ}

theorem add_spec (left : a.toInt = x) (right : b.toInt = y) (fits : FitsWord (x + y)) :
    add a b = .ok (a + b) ∧ (a + b).toInt = x + y := by
  subst left right
  refine ⟨by rw [add, guarded, if_pos fits]; rfl, ?_⟩
  rw [Int64.toInt_add, bmod_of_fits fits]

theorem sub_spec (left : a.toInt = x) (right : b.toInt = y) (fits : FitsWord (x - y)) :
    sub a b = .ok (a - b) ∧ (a - b).toInt = x - y := by
  subst left right
  refine ⟨by rw [sub, guarded, if_pos fits]; rfl, ?_⟩
  rw [Int64.toInt_sub, bmod_of_fits fits]

theorem mul_spec (left : a.toInt = x) (right : b.toInt = y) (fits : FitsWord (x * y)) :
    mul a b = .ok (a * b) ∧ (a * b).toInt = x * y := by
  subst left right
  refine ⟨by rw [mul, guarded, if_pos fits]; rfl, ?_⟩
  rw [Int64.toInt_mul, bmod_of_fits fits]

theorem toInt_shl {w : BitVec 64} {n : Nat} (value : w.toInt = x) (fits : FitsWord (x * 2 ^ n)) :
    (w <<< n).toInt = x * 2 ^ n := by
  subst value
  rw [BitVec.toInt_shiftLeft, Nat.shiftLeft_eq, ← bmod_of_fits fits, BitVec.toInt_eq_toNat_bmod,
    Int.bmod_mul_bmod, Nat.cast_mul, Nat.cast_pow]
  rfl

theorem shl16_spec (value : a.toInt = x) (fits : FitsWord (x * 2 ^ 16)) :
    shl16 a = .ok (a <<< 16) ∧ (a <<< 16).toInt = x * 2 ^ 16 := by
  have shifted : (a <<< 16).toInt = x * 2 ^ 16 := toInt_shl (n := 16) value fits
  subst value
  exact ⟨by rw [shl16, guarded, if_pos fits]; rfl, shifted⟩

theorem toInt_shr {w : BitVec 64} (n : Nat) (value : w.toInt = x) :
    (w.sshiftRight n).toInt = x / 2 ^ n := by
  subst value
  rw [BitVec.toInt_sshiftRight, Int.shiftRight_eq_div_pow]
  rfl

theorem toInt_shr16 (value : a.toInt = x) : (a >>> 16).toInt = x / 2 ^ 16 := toInt_shr 16 value

theorem toInt_shr8 (value : a.toInt = x) : (a >>> 8).toInt = x / 2 ^ 8 := toInt_shr 8 value

/-- Masking the low bits reduces modulo their power, whatever the sign. -/
theorem toInt_and_mask (a mask : Int64) {k : Nat} (small : k < 63)
    (bits : mask.toBitVec.toNat = 2 ^ k - 1) : (a &&& mask).toInt = a.toInt % 2 ^ k := by
  have masked : (a &&& mask).toInt =
      ((a.toBitVec.toNat &&& mask.toBitVec.toNat : ℕ) : ℤ).bmod (2 ^ 64) := by
    show (a.toBitVec &&& mask.toBitVec).toInt = _
    rw [BitVec.toInt_and]
  have word : a.toInt = (a.toBitVec.toNat : ℤ).bmod (2 ^ 64) := BitVec.toInt_eq_toNat_bmod _
  have divides : (2 : ℤ) ^ k ∣ ((2 ^ 64 : ℕ) : ℤ) := by
    rw [Nat.cast_pow]
    exact pow_dvd_pow 2 (by omega)
  have low : a.toBitVec.toNat % 2 ^ k < 2 ^ 63 :=
    Nat.lt_trans (Nat.mod_lt _ (Nat.two_pow_pos k)) (Nat.pow_lt_pow_right (by decide) small)
  rw [masked, bits, Nat.and_two_pow_sub_one_eq_mod, bmod_of_fits ⟨by omega, by omega⟩, word,
    ← Int.emod_emod_of_dvd _ divides, Int.bmod_emod, Int.emod_emod_of_dvd _ divides]
  push_cast
  rfl

theorem toInt_and_ffff (a : Int64) : (a &&& 0xffff).toInt = a.toInt % 2 ^ 16 :=
  toInt_and_mask a 0xffff (k := 16) (by decide) rfl

theorem toInt_and_ff (a : Int64) : (a &&& 0xff).toInt = a.toInt % 2 ^ 8 :=
  toInt_and_mask a 0xff (k := 8) (by decide) rfl

theorem toInt_and_one (a : Int64) : (a &&& 1).toInt = a.toInt % 2 :=
  toInt_and_mask a 1 (k := 1) (by decide) rfl

end Word

end RustyPenguin.Crypto
