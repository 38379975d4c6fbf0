import Mathlib.Data.Nat.Digits.Lemmas
import Mathlib.Tactic.Ring

/-!
# Numbers as limbs and as bytes

A number is stored as a little-endian list of 64-bit limbs, and sent as a big-endian string
of bytes. `value` and `ofBytes` say which number it is; `limbsOf k v` are the lowest `k`
limbs of `v`, and `bytesOf k v` its lowest `k` bytes. Reading a string of a given length is
injective, so two strings of the same length that say the same number are equal.
-/

set_option autoImplicit false

namespace RustyPenguin.Limbs

/-! ## Little-endian limbs -/

/-- The number that limbs hold. -/
def value (l : List UInt64) : Nat := Nat.ofDigits (2 ^ 64) (l.map UInt64.toNat)

@[simp] theorem value_nil : value [] = 0 := rfl

@[simp] theorem value_cons (x : UInt64) (l : List UInt64) :
    value (x :: l) = x.toNat + 2 ^ 64 * value l := rfl

theorem value_append (l l' : List UInt64) :
    value (l ++ l') = value l + 2 ^ (64 * l.length) * value l' := by
  rw [value, List.map_append, Nat.ofDigits_append, List.length_map, ← pow_mul]
  rfl

theorem value_lt (l : List UInt64) : value l < 2 ^ (64 * l.length) := by
  have bound : ∀ d ∈ l.map UInt64.toNat, d < 2 ^ 64 := by
    intro d member
    obtain ⟨x, _, rfl⟩ := List.mem_map.mp member
    exact x.toNat_lt
  have below := Nat.ofDigits_lt_base_pow_length (by decide : 1 < 2 ^ 64) bound
  rwa [List.length_map, ← pow_mul] at below

@[simp] theorem value_replicate_zero (k : Nat) : value (List.replicate k 0) = 0 := by
  rw [value, List.map_replicate]
  exact Nat.ofDigits_replicate_zero

/-- A limb list of its lowest limbs' value and its top limb. -/
theorem value_concat (l : List UInt64) (x : UInt64) :
    value (l ++ [x]) = value l + 2 ^ (64 * l.length) * x.toNat := by
  rw [value_append, value_cons, value_nil, Nat.mul_zero, Nat.add_zero]

/-- The lowest `k` limbs of a number. -/
def limbsOf (k v : Nat) : List UInt64 :=
  (List.range k).map fun j => UInt64.ofNat (v / 2 ^ (64 * j))

@[simp] theorem length_limbsOf (k v : Nat) : (limbsOf k v).length = k := by
  rw [limbsOf, List.length_map, List.length_range]

theorem getElem_limbsOf {k v j : Nat} (inside : j < (limbsOf k v).length) :
    (limbsOf k v)[j] = UInt64.ofNat (v / 2 ^ (64 * j)) := by
  simp only [limbsOf, List.getElem_map, List.getElem_range]

theorem value_limbsOf (k v : Nat) : value (limbsOf k v) = v % 2 ^ (64 * k) := by
  induction k with
  | zero => exact (Nat.mod_one v).symm
  | succ k lower =>
    have top : limbsOf (k + 1) v = limbsOf k v ++ [UInt64.ofNat (v / 2 ^ (64 * k))] := by
      rw [limbsOf, List.range_succ, List.map_append]
      rfl
    rw [top, value_concat, lower, length_limbsOf, UInt64.toNat_ofNat', Nat.mul_succ, pow_add,
      Nat.mod_mul]

/-! ## Big-endian bytes -/

/-- The number that big-endian bytes say. -/
def ofBytes (bytes : List UInt8) : Nat := Nat.ofDigits 256 (bytes.reverse.map UInt8.toNat)

@[simp] theorem ofBytes_nil : ofBytes [] = 0 := rfl

theorem ofBytes_append (front back : List UInt8) :
    ofBytes (front ++ back) = ofBytes back + 256 ^ back.length * ofBytes front := by
  rw [ofBytes, List.reverse_append, List.map_append, Nat.ofDigits_append, List.length_map,
    List.length_reverse]
  rfl

theorem ofBytes_singleton (b : UInt8) : ofBytes [b] = b.toNat := by
  rw [ofBytes]
  exact Nat.ofDigits_singleton

theorem ofBytes_cons (b : UInt8) (bytes : List UInt8) :
    ofBytes (b :: bytes) = ofBytes bytes + 256 ^ bytes.length * b.toNat := by
  rw [← List.singleton_append, ofBytes_append, ofBytes_singleton]

theorem ofBytes_concat (bytes : List UInt8) (b : UInt8) :
    ofBytes (bytes ++ [b]) = b.toNat + 256 * ofBytes bytes := by
  rw [ofBytes_append, ofBytes_singleton, List.length_singleton, pow_one]

theorem ofBytes_lt (bytes : List UInt8) : ofBytes bytes < 256 ^ bytes.length := by
  have bound : ∀ d ∈ bytes.reverse.map UInt8.toNat, d < 256 := by
    intro d member
    obtain ⟨b, _, rfl⟩ := List.mem_map.mp member
    exact b.toNat_lt
  have below := Nat.ofDigits_lt_base_pow_length (by decide : 1 < 256) bound
  rwa [List.length_map, List.length_reverse] at below

theorem ofBytes_inj {bytes bytes' : List UInt8} (size : bytes.length = bytes'.length)
    (same : ofBytes bytes = ofBytes bytes') : bytes = bytes' := by
  have bound : ∀ l : List UInt8, ∀ d ∈ l.reverse.map UInt8.toNat, d < 256 := by
    intro l d member
    obtain ⟨b, _, rfl⟩ := List.mem_map.mp member
    exact b.toNat_lt
  have digits := Nat.ofDigits_inj_of_len_eq (by decide : 1 < 256)
    (by rw [List.length_map, List.length_map, List.length_reverse, List.length_reverse, size])
    (bound bytes) (bound bytes') same
  exact List.reverse_injective
    ((List.map_injective_iff.mpr fun x y equal => UInt8.toNat_inj.mp equal) digits)

@[simp] theorem ofBytes_replicate_zero (k : Nat) : ofBytes (List.replicate k 0) = 0 := by
  rw [ofBytes, List.reverse_replicate, List.map_replicate]
  exact Nat.ofDigits_replicate_zero

theorem ofBytes_zeros_append (k : Nat) (bytes : List UInt8) :
    ofBytes (List.replicate k 0 ++ bytes) = ofBytes bytes := by
  rw [ofBytes_append, ofBytes_replicate_zero, Nat.mul_zero, Nat.add_zero]

theorem ofBytes_zero_cons (bytes : List UInt8) : ofBytes (0 :: bytes) = ofBytes bytes := by
  rw [ofBytes_cons, UInt8.toNat_zero, Nat.mul_zero, Nat.add_zero]

/-- The lowest `k` bytes of a number. -/
def bytesOf (k v : Nat) : List UInt8 :=
  ((List.range k).map fun j => UInt8.ofNat (v / 256 ^ j)).reverse

@[simp] theorem length_bytesOf (k v : Nat) : (bytesOf k v).length = k := by
  rw [bytesOf, List.length_reverse, List.length_map, List.length_range]

theorem bytesOf_succ (k v : Nat) :
    bytesOf (k + 1) v = UInt8.ofNat (v / 256 ^ k) :: bytesOf k v := by
  rw [bytesOf, List.range_succ, List.map_append, List.reverse_append]
  rfl

theorem ofBytes_bytesOf (k v : Nat) : ofBytes (bytesOf k v) = v % 256 ^ k := by
  induction k with
  | zero => exact (Nat.mod_one v).symm
  | succ k lower =>
    rw [bytesOf_succ, ofBytes_cons, lower, length_bytesOf, UInt8.toNat_ofNat', pow_succ 256 k,
      Nat.mod_mul]

/-- Bytes are the bytes of the number they say. -/
theorem bytesOf_ofBytes (bytes : List UInt8) : bytesOf bytes.length (ofBytes bytes) = bytes :=
  ofBytes_inj (length_bytesOf _ _)
    (by rw [ofBytes_bytesOf, Nat.mod_eq_of_lt (ofBytes_lt bytes)])

end RustyPenguin.Limbs
