import Mathlib.Data.Nat.Digits.Lemmas
import RustyPenguin.Crypto.Hashing
import RustyPenguin.Foundation.Unsigned

/-!
# The number of a string of bytes, the lowest byte first

Little-endian words and their bytes are read as numbers: the bytes of a word say the word, and a
word is the number of the four bytes it is read from.
-/

set_option autoImplicit false

namespace RustyPenguin.Crypto

open Unsigned

/-- The number that little-endian bytes say. -/
def leNumber (bytes : List UInt8) : Nat := Nat.ofDigits 256 (bytes.map UInt8.toNat)

@[simp] theorem leNumber_nil : leNumber [] = 0 := rfl

@[simp] theorem leNumber_cons (b : UInt8) (bytes : List UInt8) :
    leNumber (b :: bytes) = b.toNat + 256 * leNumber bytes := rfl

theorem leNumber_append (front back : List UInt8) :
    leNumber (front ++ back) = leNumber front + 256 ^ front.length * leNumber back := by
  rw [leNumber, List.map_append, Nat.ofDigits_append, List.length_map]
  rfl

theorem leNumber_replicate_zero (k : Nat) : leNumber (List.replicate k 0) = 0 := by
  rw [leNumber, List.map_replicate]
  exact Nat.ofDigits_replicate_zero

theorem leNumber_lt (bytes : List UInt8) : leNumber bytes < 256 ^ bytes.length := by
  have bound : ∀ d ∈ bytes.map UInt8.toNat, d < 256 := by
    intro d member
    obtain ⟨b, _, rfl⟩ := List.mem_map.mp member
    exact b.toNat_lt
  have below := Nat.ofDigits_lt_base_pow_length (by decide : 1 < 256) bound
  rwa [List.length_map] at below

theorem toNat_toUInt8_shr (x s : UInt32) (small : s.toNat < 32) :
    (x >>> s).toUInt8.toNat = x.toNat / 2 ^ s.toNat % 256 := by
  rw [UInt32.toNat_toUInt8, toNat_shr x s small]

/-- The bytes of a word say the word. -/
theorem leNumber_leBytes (x : UInt32) : leNumber (leBytes x) = x.toNat := by
  have b0 : x.toUInt8.toNat = x.toNat % 256 := UInt32.toNat_toUInt8 x
  have b1 : (x >>> 8).toUInt8.toNat = x.toNat / 2 ^ 8 % 256 :=
    toNat_toUInt8_shr x 8 (by decide)
  have b2 : (x >>> 16).toUInt8.toNat = x.toNat / 2 ^ 16 % 256 :=
    toNat_toUInt8_shr x 16 (by decide)
  have b3 : (x >>> 24).toUInt8.toNat = x.toNat / 2 ^ 24 % 256 :=
    toNat_toUInt8_shr x 24 (by decide)
  have word := x.toNat_lt
  simp only [leBytes, leNumber_cons, leNumber_nil, b0, b1, b2, b3]
  omega

/-- A word is the number of its four bytes. -/
theorem toNat_leWord (bytes : List UInt8) (i : Nat) :
    (leWord bytes i).toNat = (byte bytes i).toNat + 2 ^ 8 * (byte bytes (i + 1)).toNat +
      2 ^ 16 * (byte bytes (i + 2)).toNat + 2 ^ 24 * (byte bytes (i + 3)).toNat := by
  have b0 := (byte bytes i).toNat_lt
  have b1 := (byte bytes (i + 1)).toNat_lt
  have b2 := (byte bytes (i + 2)).toNat_lt
  have b3 := (byte bytes (i + 3)).toNat_lt
  have t0 := UInt8.toNat_toUInt32 (byte bytes i)
  have t1 := UInt8.toNat_toUInt32 (byte bytes (i + 1))
  have t2 := UInt8.toNat_toUInt32 (byte bytes (i + 2))
  have t3 := UInt8.toNat_toUInt32 (byte bytes (i + 3))
  have s1 := toNat_or_shl (w := (byte bytes i).toUInt32) (a := (byte bytes (i + 1)).toUInt32)
    (s := 8) (k := 8) rfl (by decide) (by omega)
  have s2 := toNat_or_shl (w := (byte bytes i).toUInt32 ||| (byte bytes (i + 1)).toUInt32 <<< 8)
    (a := (byte bytes (i + 2)).toUInt32) (s := 16) (k := 16) rfl (by decide) (by omega)
  have s3 := toNat_or_shl (w := (byte bytes i).toUInt32 |||
      (byte bytes (i + 1)).toUInt32 <<< 8 ||| (byte bytes (i + 2)).toUInt32 <<< 16)
    (a := (byte bytes (i + 3)).toUInt32) (s := 24) (k := 24) rfl (by decide) (by omega)
  rw [leWord, s3, s2, s1, t0, t1, t2, t3]
  omega

end RustyPenguin.Crypto
