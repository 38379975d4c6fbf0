import Mathlib.Data.Fintype.EquivFin
import Mathlib.Data.List.Nodup
import RustyPenguin.Crypto.Sha256

/-!
# AES-128 and key wrap

The block cipher that unwraps the group key of a WPA2 handshake, and the key wrap built
on it. A block is a vector of 16 bytes in column order, a round is four maps on it, and
decryption applies their inverses in the opposite order (`decryptBlock_encryptBlock`).

The key wrap runs `6n` steps over one register and `n` blocks, each of which encrypts the
register with one block. Unwrapping undoes the steps from the last to the first, so that
what was wrapped is found again (`keyUnwrap_keyWrap`).
-/

set_option autoImplicit false

namespace RustyPenguin.Crypto

open Positions

/-! ## The cipher -/

set_option maxRecDepth 4000 in
@[irreducible]
def sbox : Vector UInt8 256 := #v[
  0x63, 0x7c, 0x77, 0x7b, 0xf2, 0x6b, 0x6f, 0xc5, 0x30, 0x01, 0x67, 0x2b, 0xfe, 0xd7, 0xab, 0x76,
  0xca, 0x82, 0xc9, 0x7d, 0xfa, 0x59, 0x47, 0xf0, 0xad, 0xd4, 0xa2, 0xaf, 0x9c, 0xa4, 0x72, 0xc0,
  0xb7, 0xfd, 0x93, 0x26, 0x36, 0x3f, 0xf7, 0xcc, 0x34, 0xa5, 0xe5, 0xf1, 0x71, 0xd8, 0x31, 0x15,
  0x04, 0xc7, 0x23, 0xc3, 0x18, 0x96, 0x05, 0x9a, 0x07, 0x12, 0x80, 0xe2, 0xeb, 0x27, 0xb2, 0x75,
  0x09, 0x83, 0x2c, 0x1a, 0x1b, 0x6e, 0x5a, 0xa0, 0x52, 0x3b, 0xd6, 0xb3, 0x29, 0xe3, 0x2f, 0x84,
  0x53, 0xd1, 0x00, 0xed, 0x20, 0xfc, 0xb1, 0x5b, 0x6a, 0xcb, 0xbe, 0x39, 0x4a, 0x4c, 0x58, 0xcf,
  0xd0, 0xef, 0xaa, 0xfb, 0x43, 0x4d, 0x33, 0x85, 0x45, 0xf9, 0x02, 0x7f, 0x50, 0x3c, 0x9f, 0xa8,
  0x51, 0xa3, 0x40, 0x8f, 0x92, 0x9d, 0x38, 0xf5, 0xbc, 0xb6, 0xda, 0x21, 0x10, 0xff, 0xf3, 0xd2,
  0xcd, 0x0c, 0x13, 0xec, 0x5f, 0x97, 0x44, 0x17, 0xc4, 0xa7, 0x7e, 0x3d, 0x64, 0x5d, 0x19, 0x73,
  0x60, 0x81, 0x4f, 0xdc, 0x22, 0x2a, 0x90, 0x88, 0x46, 0xee, 0xb8, 0x14, 0xde, 0x5e, 0x0b, 0xdb,
  0xe0, 0x32, 0x3a, 0x0a, 0x49, 0x06, 0x24, 0x5c, 0xc2, 0xd3, 0xac, 0x62, 0x91, 0x95, 0xe4, 0x79,
  0xe7, 0xc8, 0x37, 0x6d, 0x8d, 0xd5, 0x4e, 0xa9, 0x6c, 0x56, 0xf4, 0xea, 0x65, 0x7a, 0xae, 0x08,
  0xba, 0x78, 0x25, 0x2e, 0x1c, 0xa6, 0xb4, 0xc6, 0xe8, 0xdd, 0x74, 0x1f, 0x4b, 0xbd, 0x8b, 0x8a,
  0x70, 0x3e, 0xb5, 0x66, 0x48, 0x03, 0xf6, 0x0e, 0x61, 0x35, 0x57, 0xb9, 0x86, 0xc1, 0x1d, 0x9e,
  0xe1, 0xf8, 0x98, 0x11, 0x69, 0xd9, 0x8e, 0x94, 0x9b, 0x1e, 0x87, 0xe9, 0xce, 0x55, 0x28, 0xdf,
  0x8c, 0xa1, 0x89, 0x0d, 0xbf, 0xe6, 0x42, 0x68, 0x41, 0x99, 0x2d, 0x0f, 0xb0, 0x54, 0xbb, 0x16]

/-- Look a byte up in a table of 256 bytes. -/
def lookup (table : Vector UInt8 256) (b : UInt8) : UInt8 :=
  have inside : b.toNat < 256 := b.toNat_lt
  table[b.toNat]

/-- The position at which the inverse table holds `i`. -/
def sboxIndex (i : Fin 256) : Fin 256 := ⟨sbox[i].toNat, sbox[i].toNat_lt⟩

/-- The inverse table. -/
def invSbox : Vector UInt8 256 :=
  (List.finRange 256).foldl (fun inv i => inv.set (sboxIndex i).val (UInt8.ofNat i.val))
    (Vector.replicate 256 0)

def rcon : Vector UInt8 10 := #v[0x01, 0x02, 0x04, 0x08, 0x10, 0x20, 0x40, 0x80, 0x1b, 0x36]

/-- Multiplication by `x` in the field of 256 elements. -/
def xtime (a : UInt8) : UInt8 :=
  if a &&& 0x80 ≠ 0 then (a <<< 1) ^^^ 0x1b else a <<< 1

/-- Multiply by the bits of `b`, from the lowest: the sum so far and the shifted factor. -/
def gmulLoop : Nat → UInt8 → UInt8 → UInt8 → UInt8
  | 0, p, _, _ => p
  | steps + 1, p, a, b =>
    gmulLoop steps (if b &&& 1 ≠ 0 then p ^^^ a else p) (xtime a) (b >>> 1)

/-- Multiplication in the field of 256 elements. -/
def gmul (a b : UInt8) : UInt8 := gmulLoop 8 0 a b

/-- A state or block of 16 bytes, column by column. -/
abbrev Block : Type := Vector UInt8 16

/-- An expanded key: the bytes of eleven round keys. -/
structure Aes128 where
  rk : Vector UInt8 176

/-- The next word of the key schedule, at byte `16 + 4 * k`. -/
def expandStep (rk : Vector UInt8 176) (k : Fin 40) : Vector UInt8 176 :=
  let t0 := rk[4 * k.val + 12]
  let t1 := rk[4 * k.val + 13]
  let t2 := rk[4 * k.val + 14]
  let t3 := rk[4 * k.val + 15]
  let t : Vector UInt8 4 :=
    if k.val % 4 = 0 then
      #v[lookup sbox t1 ^^^ rcon[k.val / 4], lookup sbox t2, lookup sbox t3, lookup sbox t0]
    else #v[t0, t1, t2, t3]
  (List.finRange 4).foldl
    (fun rk j => rk.set (4 * k.val + 16 + j.val) (rk[4 * k.val + j.val] ^^^ t[j])) rk

namespace Aes128

def new (key : Block) : Aes128 where
  rk := (List.finRange 40).foldl expandStep
    (Vector.ofFn fun i => if inside : i.val < 16 then key[i.val] else 0)

/-- A round key. -/
def roundKey (aes : Aes128) (r : Fin 11) : Block := Vector.ofFn fun i => aes.rk[16 * r.val + i.val]

end Aes128

/-! ### The four maps of a round -/

def addRoundKey (s k : Block) : Block :=
  Vector.ofFn fun i => getElem s i (fin16 i) ^^^ getElem k i (fin16 i)

def subBytes (s : Block) : Block :=
  Vector.ofFn fun i => lookup sbox (getElem s i (fin16 i))

def invSubBytes (s : Block) : Block :=
  Vector.ofFn fun i => lookup invSbox (getElem s i (fin16 i))

/-- Rotate row `r` left by `r`. -/
def shiftRows (s : Block) : Block :=
  Vector.ofFn fun i => s[i.val % 4 + 4 * ((i.val / 4 + i.val % 4) % 4)]

def invShiftRows (s : Block) : Block :=
  Vector.ofFn fun i => s[i.val % 4 + 4 * ((i.val / 4 + 4 - i.val % 4) % 4)]

/-- One byte of a mixed column. -/
def mixByte (a0 a1 a2 a3 : UInt8) : Nat → UInt8
  | 0 => gmul a0 2 ^^^ gmul a1 3 ^^^ a2 ^^^ a3
  | 1 => a0 ^^^ gmul a1 2 ^^^ gmul a2 3 ^^^ a3
  | 2 => a0 ^^^ a1 ^^^ gmul a2 2 ^^^ gmul a3 3
  | _ => gmul a0 3 ^^^ a1 ^^^ a2 ^^^ gmul a3 2

/-- One byte of an unmixed column. -/
def invMixByte (a0 a1 a2 a3 : UInt8) : Nat → UInt8
  | 0 => gmul a0 14 ^^^ gmul a1 11 ^^^ gmul a2 13 ^^^ gmul a3 9
  | 1 => gmul a0 9 ^^^ gmul a1 14 ^^^ gmul a2 11 ^^^ gmul a3 13
  | 2 => gmul a0 13 ^^^ gmul a1 9 ^^^ gmul a2 14 ^^^ gmul a3 11
  | _ => gmul a0 11 ^^^ gmul a1 13 ^^^ gmul a2 9 ^^^ gmul a3 14

def mixColumns (s : Block) : Block :=
  Vector.ofFn fun i =>
    mixByte s[4 * (i.val / 4)] s[4 * (i.val / 4) + 1] s[4 * (i.val / 4) + 2]
      s[4 * (i.val / 4) + 3] (i.val % 4)

def invMixColumns (s : Block) : Block :=
  Vector.ofFn fun i =>
    invMixByte s[4 * (i.val / 4)] s[4 * (i.val / 4) + 1] s[4 * (i.val / 4) + 2]
      s[4 * (i.val / 4) + 3] (i.val % 4)

namespace Aes128

/-- The keys of the nine rounds that mix columns. -/
def middle (aes : Aes128) : List Block :=
  (List.finRange 9).map fun r => aes.roundKey ⟨r.val + 1, by omega⟩

def encryptBlock (aes : Aes128) (block : Block) : Block :=
  let s := addRoundKey block (aes.roundKey 0)
  let s := aes.middle.foldl (fun s k => addRoundKey (mixColumns (shiftRows (subBytes s))) k) s
  addRoundKey (shiftRows (subBytes s)) (aes.roundKey 10)

def decryptBlock (aes : Aes128) (block : Block) : Block :=
  let s := addRoundKey block (aes.roundKey 10)
  let s := aes.middle.reverse.foldl
    (fun s k => invMixColumns (addRoundKey (invSubBytes (invShiftRows s)) k)) s
  addRoundKey (invSubBytes (invShiftRows s)) (aes.roundKey 0)

end Aes128

/-! ### Each map and its inverse -/

theorem addRoundKey_addRoundKey (s k : Block) : addRoundKey (addRoundKey s k) k = s := by
  ext i inside
  simp [addRoundKey, UInt8.xor_assoc]

section Table

variable {α β : Type} {n : Nat} {at' : β → Fin n}

theorem getElem_foldl_set_of_ne (value : β → α) (l : List β) (v : Vector α n) (k : Nat)
    (inside : k < n) (away : ∀ x ∈ l, (at' x).val ≠ k) :
    (l.foldl (fun v x => v.set (at' x).val (value x)) v)[k] = v[k] := by
  induction l generalizing v with
  | nil => rfl
  | cons x l ih =>
    rw [List.foldl_cons, ih _ fun y later => away y (List.mem_cons_of_mem _ later)]
    exact Vector.getElem_set_ne _ _ (away x List.mem_cons_self)

/-- A table filled at distinct positions holds at each of them what was put there. -/
theorem getElem_foldl_set (value : β → α) {l : List β} (distinct : (l.map at').Nodup)
    (v : Vector α n) {x : β} (isMember : x ∈ l) :
    (l.foldl (fun v x => v.set (at' x).val (value x)) v)[(at' x).val] = value x := by
  induction l generalizing v with
  | nil => cases isMember
  | cons y l ih =>
    obtain ⟨fresh, distinct⟩ := List.nodup_cons.mp distinct
    rw [List.foldl_cons]
    rcases List.mem_cons.mp isMember with rfl | later
    · rw [getElem_foldl_set_of_ne]
      · exact Vector.getElem_set_self _
      · intro z isLater same
        exact fresh (List.mem_map.mpr ⟨z, isLater, Fin.ext same⟩)
    · exact ih distinct _ later

end Table

theorem testBit_marks (bytes : List UInt8) (m k : Nat) :
    (bytes.foldl (fun m b => m ||| 1 <<< b.toNat) m).testBit k =
      (m.testBit k || bytes.any fun b => b.toNat == k) := by
  induction bytes generalizing m with
  | nil => simp
  | cons b bytes ih =>
    rw [List.foldl_cons, ih, List.any_cons, Nat.testBit_or, Nat.one_shiftLeft,
      Nat.testBit_two_pow, Bool.or_assoc]
    rfl

/-- Every byte is in the table: the bits of all its entries make a full mask. -/
theorem sboxIndex_surjective : Function.Surjective sboxIndex := by
  intro target
  have full : sbox.toList.foldl (fun m b => m ||| 1 <<< b.toNat) 0 = 2 ^ 256 - 1 := by
    decide +kernel
  have marked := testBit_marks sbox.toList 0 target.val
  rw [full, Nat.testBit_two_pow_sub_one, decide_eq_true target.isLt, Nat.zero_testBit,
    Bool.false_or] at marked
  obtain ⟨b, isMember, same⟩ := List.any_eq_true.mp marked.symm
  obtain ⟨i, inside, rfl⟩ := List.mem_iff_getElem.mp isMember
  rw [Vector.getElem_toList] at same
  exact ⟨⟨i, by rwa [Vector.length_toList] at inside⟩, Fin.ext (beq_iff_eq.mp same)⟩

theorem lookup_invSbox (b : UInt8) : lookup invSbox (lookup sbox b) = b := by
  have distinct : ((List.finRange 256).map sboxIndex).Nodup :=
    (List.nodup_finRange 256).map (Finite.injective_iff_surjective.mpr sboxIndex_surjective)
  have held : lookup invSbox (lookup sbox b) = UInt8.ofNat b.toNat :=
    getElem_foldl_set (fun i : Fin 256 => UInt8.ofNat i.val) distinct (Vector.replicate 256 0)
      (List.mem_finRange ⟨b.toNat, b.toNat_lt⟩)
  exact held.trans (UInt8.ofNat_toNat)

theorem invSubBytes_subBytes (s : Block) : invSubBytes (subBytes s) = s := by
  ext i inside
  simp [invSubBytes, subBytes, lookup_invSbox]

theorem invShiftRows_shiftRows (s : Block) : invShiftRows (shiftRows s) = s := by
  ext i inside
  simp only [invShiftRows, shiftRows, Vector.getElem_ofFn]
  have back : (i % 4 + 4 * ((i / 4 + 4 - i % 4) % 4)) % 4 +
      4 * (((i % 4 + 4 * ((i / 4 + 4 - i % 4) % 4)) / 4 +
        (i % 4 + 4 * ((i / 4 + 4 - i % 4) % 4)) % 4) % 4) = i := by
    omega
  simp only [back]

/-! ### Mixing columns -/

set_option maxRecDepth 16000 in
theorem and_top (a : UInt8) : a &&& 0x80 = 0 ∨ a &&& 0x80 = 0x80 := by
  have all : ∀ i : Fin 256, UInt8.ofNat i.val &&& 0x80 = 0 ∨ UInt8.ofNat i.val &&& 0x80 = 0x80 := by
    decide
  simpa using all ⟨a.toNat, a.toNat_lt⟩

theorem xor_and (a b c : UInt8) : (a ^^^ b) &&& c = (a &&& c) ^^^ (b &&& c) := by
  refine UInt8.toBitVec_inj.mp (BitVec.eq_of_getLsbD_eq fun i _ => ?_)
  simp [Bool.and_xor_distrib_right]

theorem xtime_xor (a b : UInt8) : xtime (a ^^^ b) = xtime a ^^^ xtime b := by
  rw [xtime, xtime, xtime, xor_and, UInt8.shiftLeft_xor]
  have cancel : ∀ x y : UInt8, x ^^^ y = (x ^^^ 0x1b) ^^^ (y ^^^ 0x1b) := by
    intro x y
    calc x ^^^ y = (x ^^^ y) ^^^ (0x1b ^^^ 0x1b) := by rw [UInt8.xor_self, UInt8.xor_zero]
      _ = (x ^^^ 0x1b) ^^^ (y ^^^ 0x1b) := by ac_rfl
  rcases and_top a with high | high <;> rcases and_top b with high' | high'
  · simp [high, high']
  · simp [high, high', UInt8.xor_assoc]
  · simp only [high, high', ne_eq]
    simp
    ac_rfl
  · simpa [high, high'] using cancel (a <<< 1) (b <<< 1)

theorem gmulLoop_xor (steps : Nat) (p q a b c : UInt8) :
    gmulLoop steps (p ^^^ q) (a ^^^ b) c = gmulLoop steps p a c ^^^ gmulLoop steps q b c := by
  induction steps generalizing p q a b c with
  | zero => rfl
  | succ steps ih =>
    rw [gmulLoop, gmulLoop, gmulLoop, xtime_xor, ← ih]
    by_cases low : c &&& 1 ≠ 0
    · rw [if_pos low, if_pos low, if_pos low]
      congr 1
      ac_rfl
    · rw [if_neg low, if_neg low, if_neg low]

/-- Multiplication distributes over sums of the first factor. -/
theorem gmul_xor (a b c : UInt8) : gmul (a ^^^ b) c = gmul a c ^^^ gmul b c :=
  gmulLoop_xor 8 0 0 a b c

/-- The powers of two below a byte's bound. -/
def byteBits : List UInt8 := [1, 2, 4, 8, 16, 32, 64, 128]

theorem sum_bits (a : UInt8) : byteBits.foldr (fun bit rest => (a &&& bit) ^^^ rest) 0 = a := by
  refine UInt8.toBitVec_inj.mp (BitVec.eq_of_getLsbD_eq fun i inside => ?_)
  match i, inside with
  | 0, _ | 1, _ | 2, _ | 3, _ | 4, _ | 5, _ | 6, _ | 7, _ => simp [byteBits]

theorem and_byteBit (a : UInt8) : ∀ bit ∈ byteBits, a &&& bit = 0 ∨ a &&& bit = bit := by
  have choice (i : Nat) (bit : UInt8) (power : bit.toNat = 2 ^ i) : a &&& bit = 0 ∨ a &&& bit = bit := by
    rw [← UInt8.toNat_inj, ← UInt8.toNat_inj, UInt8.toNat_and, power]
    cases set : a.toNat.testBit i
    · refine Or.inl (Nat.eq_of_testBit_eq fun j => ?_)
      rw [Nat.testBit_and, Nat.testBit_two_pow]
      rcases eq_or_ne i j with rfl | other <;> simp [*]
    · refine Or.inr (Nat.eq_of_testBit_eq fun j => ?_)
      rw [Nat.testBit_and, Nat.testBit_two_pow]
      rcases eq_or_ne i j with rfl | other <;> simp [*]
  simpa [byteBits] using ⟨choice 0 1 rfl, choice 1 2 rfl, choice 2 4 rfl, choice 3 8 rfl,
    choice 4 16 rfl, choice 5 32 rfl, choice 6 64 rfl, choice 7 128 rfl⟩

/-- Two additive maps of bytes that agree on the powers of two agree everywhere. -/
theorem eq_of_byteBits {f g : UInt8 → UInt8} (splitsLeft : ∀ a b, f (a ^^^ b) = f a ^^^ f b)
    (splitsRight : ∀ a b, g (a ^^^ b) = g a ^^^ g b) (agree : ∀ bit ∈ byteBits, f bit = g bit)
    (a : UInt8) : f a = g a := by
  have zero {h : UInt8 → UInt8} (splits : ∀ a b, h (a ^^^ b) = h a ^^^ h b) : h 0 = 0 := by
    simpa using splits 0 0
  have sums : ∀ bits ⊆ byteBits, f (bits.foldr (fun bit rest => (a &&& bit) ^^^ rest) 0) =
      g (bits.foldr (fun bit rest => (a &&& bit) ^^^ rest) 0) := by
    intro bits isPart
    induction bits with
    | nil => exact (zero splitsLeft).trans (zero splitsRight).symm
    | cons bit bits ih =>
      obtain ⟨isBit, isPart⟩ := List.cons_subset.mp isPart
      rw [List.foldr_cons, splitsLeft, splitsRight, ih isPart]
      rcases and_byteBit a bit isBit with none | whole
      · rw [none, zero splitsLeft, zero splitsRight]
      · rw [whole, agree bit isBit]
  simpa only [sum_bits] using sums byteBits (List.Subset.refl _)

/-- The products of the two column matrices, coefficient by coefficient. -/
theorem gmul_products (a : UInt8) :
    gmul (gmul a 2) 14 ^^^ gmul a 11 ^^^ gmul a 13 ^^^ gmul (gmul a 3) 9 = a ∧
      gmul (gmul a 3) 14 ^^^ gmul (gmul a 2) 11 ^^^ gmul a 13 ^^^ gmul a 9 = 0 ∧
        gmul a 14 ^^^ gmul (gmul a 3) 11 ^^^ gmul (gmul a 2) 13 ^^^ gmul a 9 = 0 ∧
          gmul a 14 ^^^ gmul a 11 ^^^ gmul (gmul a 3) 13 ^^^ gmul (gmul a 2) 9 = 0 := by
  have agree (f g : UInt8 → UInt8) (splitsLeft : ∀ a b, f (a ^^^ b) = f a ^^^ f b)
      (splitsRight : ∀ a b, g (a ^^^ b) = g a ^^^ g b) (same : ∀ bit ∈ byteBits, f bit = g bit) :
      f a = g a := eq_of_byteBits splitsLeft splitsRight same a
  refine ⟨agree (fun a => gmul (gmul a 2) 14 ^^^ gmul a 11 ^^^ gmul a 13 ^^^ gmul (gmul a 3) 9)
      (fun a => a) ?_ (fun _ _ => rfl) ?_,
    agree (fun a => gmul (gmul a 3) 14 ^^^ gmul (gmul a 2) 11 ^^^ gmul a 13 ^^^ gmul a 9)
      (fun _ => 0) ?_ (fun _ _ => rfl) ?_,
    agree (fun a => gmul a 14 ^^^ gmul (gmul a 3) 11 ^^^ gmul (gmul a 2) 13 ^^^ gmul a 9)
      (fun _ => 0) ?_ (fun _ _ => rfl) ?_,
    agree (fun a => gmul a 14 ^^^ gmul a 11 ^^^ gmul (gmul a 3) 13 ^^^ gmul (gmul a 2) 9)
      (fun _ => 0) ?_ (fun _ _ => rfl) ?_⟩
  case refine_2 | refine_4 | refine_6 | refine_8 => decide
  all_goals
    intro a b
    simp only [gmul_xor]
    ac_rfl

theorem invMixByte_first (a0 a1 a2 a3 : UInt8) :
    invMixByte (mixByte a0 a1 a2 a3 0) (mixByte a0 a1 a2 a3 1) (mixByte a0 a1 a2 a3 2)
      (mixByte a0 a1 a2 a3 3) 0 = a0 := by
  simp only [mixByte, invMixByte, gmul_xor]
  calc _ = (gmul (gmul a0 2) 14 ^^^ gmul a0 11 ^^^ gmul a0 13 ^^^ gmul (gmul a0 3) 9) ^^^
        (gmul (gmul a1 3) 14 ^^^ gmul (gmul a1 2) 11 ^^^ gmul a1 13 ^^^ gmul a1 9) ^^^
        (gmul a2 14 ^^^ gmul (gmul a2 3) 11 ^^^ gmul (gmul a2 2) 13 ^^^ gmul a2 9) ^^^
        (gmul a3 14 ^^^ gmul a3 11 ^^^ gmul (gmul a3 3) 13 ^^^ gmul (gmul a3 2) 9) := by ac_rfl
    _ = a0 ^^^ 0 ^^^ 0 ^^^ 0 := by
      rw [(gmul_products a0).1, (gmul_products a1).2.1, (gmul_products a2).2.2.1,
        (gmul_products a3).2.2.2]
    _ = a0 := by simp only [UInt8.xor_zero]

/-- Both column maps commute with rotating the column. -/
theorem mixByte_rotate (a0 a1 a2 a3 : UInt8) :
    mixByte a0 a1 a2 a3 1 = mixByte a1 a2 a3 a0 0 ∧
      mixByte a0 a1 a2 a3 2 = mixByte a1 a2 a3 a0 1 ∧
        mixByte a0 a1 a2 a3 3 = mixByte a1 a2 a3 a0 2 ∧
          mixByte a0 a1 a2 a3 0 = mixByte a1 a2 a3 a0 3 := by
  simp only [mixByte]
  refine ⟨?_, ?_, ?_, ?_⟩ <;> ac_rfl

theorem invMixByte_rotate (a0 a1 a2 a3 : UInt8) :
    invMixByte a0 a1 a2 a3 1 = invMixByte a1 a2 a3 a0 0 ∧
      invMixByte a0 a1 a2 a3 2 = invMixByte a1 a2 a3 a0 1 ∧
        invMixByte a0 a1 a2 a3 3 = invMixByte a1 a2 a3 a0 2 := by
  simp only [invMixByte]
  refine ⟨?_, ?_, ?_⟩ <;> ac_rfl

/-- Unmixing a mixed column gives each of its bytes back. -/
theorem invMixByte_mixByte (a0 a1 a2 a3 : UInt8) :
    ∀ r, r < 4 → invMixByte (mixByte a0 a1 a2 a3 0) (mixByte a0 a1 a2 a3 1)
      (mixByte a0 a1 a2 a3 2) (mixByte a0 a1 a2 a3 3) r = [a0, a1, a2, a3].getD r 0 := by
  have rotate : ∀ b0 b1 b2 b3 r, r < 3 →
      invMixByte (mixByte b0 b1 b2 b3 0) (mixByte b0 b1 b2 b3 1) (mixByte b0 b1 b2 b3 2)
          (mixByte b0 b1 b2 b3 3) (r + 1) =
        invMixByte (mixByte b1 b2 b3 b0 0) (mixByte b1 b2 b3 b0 1) (mixByte b1 b2 b3 b0 2)
          (mixByte b1 b2 b3 b0 3) r := by
    intro b0 b1 b2 b3 r small
    obtain ⟨m1, m2, m3, m0⟩ := mixByte_rotate b0 b1 b2 b3
    rw [m1, m2, m3, m0]
    obtain ⟨i1, i2, i3⟩ := invMixByte_rotate (mixByte b1 b2 b3 b0 3) (mixByte b1 b2 b3 b0 0)
      (mixByte b1 b2 b3 b0 1) (mixByte b1 b2 b3 b0 2)
    match r, small with
    | 0, _ => exact i1
    | 1, _ => exact i2
    | 2, _ => exact i3
  intro r small
  match r, small with
  | 0, _ => exact invMixByte_first a0 a1 a2 a3
  | 1, _ => exact (rotate a0 a1 a2 a3 0 (by decide)).trans (invMixByte_first a1 a2 a3 a0)
  | 2, _ =>
    exact (rotate a0 a1 a2 a3 1 (by decide)).trans
      ((rotate a1 a2 a3 a0 0 (by decide)).trans (invMixByte_first a2 a3 a0 a1))
  | 3, _ =>
    exact (rotate a0 a1 a2 a3 2 (by decide)).trans ((rotate a1 a2 a3 a0 1 (by decide)).trans
      ((rotate a2 a3 a0 a1 0 (by decide)).trans (invMixByte_first a3 a0 a1 a2)))

/-- The bytes of a column, by their row. -/
theorem getD_column (s : Block) (c r : Nat) (small : r < 4) (inside : c < 4) :
    [s[4 * c], s[4 * c + 1], s[4 * c + 2], s[4 * c + 3]].getD r 0 = s[4 * c + r] := by
  match r, small with
  | 0, _ => rfl
  | 1, _ => rfl
  | 2, _ => rfl
  | 3, _ => rfl

theorem invMixColumns_mixColumns (s : Block) : invMixColumns (mixColumns s) = s := by
  refine Vector.ext fun i inside => ?_
  have column : ∀ k (small : k < 4), (mixColumns s)[4 * (i / 4) + k] =
      mixByte s[4 * (i / 4)] s[4 * (i / 4) + 1] s[4 * (i / 4) + 2] s[4 * (i / 4) + 3] k := by
    intro k small
    have quotient : (4 * (i / 4) + k) / 4 = i / 4 := by omega
    have rest : (4 * (i / 4) + k) % 4 = k := by omega
    simp only [mixColumns, Vector.getElem_ofFn, quotient, rest]
  have unmixed := invMixByte_mixByte s[4 * (i / 4)] s[4 * (i / 4) + 1] s[4 * (i / 4) + 2]
    s[4 * (i / 4) + 3] (i % 4) (Nat.mod_lt _ (by decide))
  simp only [invMixColumns, Vector.getElem_ofFn]
  rw [column 1 (by decide), column 2 (by decide), column 3 (by decide)]
  have first := column 0 (by decide)
  simp only [Nat.add_zero] at first
  rw [first, unmixed, getD_column s (i / 4) (i % 4) (Nat.mod_lt _ (by decide)) (by omega)]
  simp only [Nat.div_add_mod]

/-! ### Rounds -/

/-- Undoing steps from the last to the first undoes them all. -/
theorem foldl_reverse_cancel {σ α : Type} {f g : σ → α → σ} (cancel : ∀ s x, g (f s x) x = s)
    (steps : List α) (s : σ) : steps.reverse.foldl g (steps.foldl f s) = s := by
  induction steps generalizing s with
  | nil => rfl
  | cons x steps ih =>
    rw [List.foldl_cons, List.reverse_cons, List.foldl_append, ih]
    exact cancel s x

/-- A map between the steps of a fold may be taken with the step before or after it. -/
theorem foldl_shift {σ τ α : Type} (g : τ → α → σ) (h : σ → τ) (steps : List α) (s : σ) :
    h (steps.foldl (fun s x => g (h s) x) s) = steps.foldl (fun t x => h (g t x)) (h s) := by
  induction steps generalizing s with
  | nil => rfl
  | cons x steps ih => rw [List.foldl_cons, List.foldl_cons, ih]

namespace Aes128

/-- **Decryption inverts encryption**, for every key and block. -/
theorem decryptBlock_encryptBlock (aes : Aes128) (block : Block) :
    aes.decryptBlock (aes.encryptBlock block) = block := by
  have rounds := foldl_reverse_cancel
    (f := fun t k => shiftRows (subBytes (addRoundKey (mixColumns t) k)))
    (g := fun s k => invMixColumns (addRoundKey (invSubBytes (invShiftRows s)) k))
    (fun t k => by
      simp only [invShiftRows_shiftRows, invSubBytes_subBytes, addRoundKey_addRoundKey,
        invMixColumns_mixColumns])
    aes.middle
  simp only [decryptBlock, encryptBlock, addRoundKey_addRoundKey]
  rw [foldl_shift (fun t k => addRoundKey (mixColumns t) k) (fun s => shiftRows (subBytes s)),
    rounds, invShiftRows_shiftRows, invSubBytes_subBytes, addRoundKey_addRoundKey]

end Aes128

/-! ## Key wrap -/

/-- Half a block: the register of the key wrap, and what is wrapped. -/
abbrev Half : Type := Vector UInt8 8

/-- A block of two halves. -/
def join (a b : Half) : Block :=
  Vector.ofFn fun i => if low : i.val < 8 then a[i.val] else b[i.val - 8]

def highHalf (block : Block) : Half := Vector.ofFn fun i => block[i.val]

def lowHalf (block : Block) : Half := Vector.ofFn fun i => block[i.val + 8]

def xorHalf (a b : Half) : Half :=
  Vector.ofFn fun i => getElem a i (fin8 i) ^^^ getElem b i (fin8 i)

/-- The counter of a step, as big-endian bytes. -/
def counter (t : Nat) : Half := arrayAt 8 (beBytes64 (UInt64.ofNat t)) 0

/-- The steps of a wrap of `n` blocks, first to last. -/
def wrapSteps (n : Nat) : List (Fin 6 × Fin n) := (List.finRange 6).product (List.finRange n)

variable {n : Nat}

/-- One step: the register is encrypted together with one block. -/
def wrapStep (aes : Aes128) (s : Half × Vector Half n) (step : Fin 6 × Fin n) :
    Half × Vector Half n :=
  let e := aes.encryptBlock (join s.1 s.2[step.2])
  (xorHalf (highHalf e) (counter (n * step.1.val + (step.2.val + 1))),
    s.2.set step.2 (lowHalf e))

def unwrapStep (aes : Aes128) (s : Half × Vector Half n) (step : Fin 6 × Fin n) :
    Half × Vector Half n :=
  let a := xorHalf s.1 (counter (n * step.1.val + (step.2.val + 1)))
  let d := aes.decryptBlock (join a s.2[step.2])
  (highHalf d, s.2.set step.2 (lowHalf d))

/-- The register a wrap starts from, and the value an unwrap must end with. -/
def defaultIv : Half := Vector.replicate 8 0xA6

/-- The half blocks of a byte string, from `off` on. -/
def halves (n : Nat) (bytes : List UInt8) (off : Nat) : Vector Half n :=
  Vector.ofFn fun i => arrayAt 8 bytes (off + 8 * i.val)

/-- The bytes of half blocks. -/
def flatten (r : Vector Half n) : List UInt8 := r.toList.flatMap Vector.toList

/-- Wrap `n` half blocks. -/
def wrapBlocks (kek : Block) (n : Nat) (plain : List UInt8) : List UInt8 :=
  let s := (wrapSteps n).foldl (wrapStep (Aes128.new kek)) (defaultIv, halves n plain 0)
  s.1.toList ++ flatten s.2

/-- Unwrap `n` half blocks; the register must end with the default value. -/
def unwrapBlocks (kek : Block) (n : Nat) (wrapped : List UInt8) : Option (List UInt8) :=
  let s := (wrapSteps n).reverse.foldl (unwrapStep (Aes128.new kek))
    (arrayAt 8 wrapped 0, halves n wrapped 8)
  if s.1 = defaultIv then some (flatten s.2) else none

/-- Wrap a byte string under a key; `room` is the length of the output buffer. -/
def keyWrap (kek : Block) (plain : List UInt8) (room : Nat) : Option (List UInt8) :=
  if plain = [] ∨ plain.length % 8 ≠ 0 then none
  else if 32 < plain.length / 8 ∨ room < (plain.length / 8 + 1) * 8 then none
  else some (wrapBlocks kek (plain.length / 8) plain)

/-- Unwrap a byte string, and check its integrity. -/
def keyUnwrap (kek : Block) (wrapped : List UInt8) (room : Nat) : Option (List UInt8) :=
  if wrapped.length < 16 ∨ wrapped.length % 8 ≠ 0 then none
  else if room < (wrapped.length / 8 - 1) * 8 ∨ 32 < wrapped.length / 8 - 1 then none
  else unwrapBlocks kek (wrapped.length / 8 - 1) wrapped

theorem xorHalf_xorHalf (a t : Half) : xorHalf (xorHalf a t) t = a := by
  refine Vector.ext fun i inside => ?_
  simp [xorHalf, UInt8.xor_assoc]

theorem join_halves (block : Block) : join (highHalf block) (lowHalf block) = block := by
  refine Vector.ext fun i inside => ?_
  by_cases low : i < 8
  · simp [join, highHalf, low]
  · have back : i - 8 + 8 = i := by omega
    simp [join, lowHalf, low, back]

theorem highHalf_join (a b : Half) : highHalf (join a b) = a := by
  refine Vector.ext fun i inside => ?_
  simp [join, highHalf]

theorem lowHalf_join (a b : Half) : lowHalf (join a b) = b := by
  refine Vector.ext fun i inside => ?_
  have high : ¬ i + 8 < 8 := by omega
  simp [join, lowHalf, high]

theorem unwrapStep_wrapStep (aes : Aes128) (s : Half × Vector Half n) (step : Fin 6 × Fin n) :
    unwrapStep aes (wrapStep aes s step) step = s := by
  obtain ⟨a, r⟩ := s
  simp [unwrapStep, wrapStep, xorHalf_xorHalf, join_halves, Aes128.decryptBlock_encryptBlock,
    highHalf_join, lowHalf_join]

/-! ### What is laid out and read back -/

theorem length_flatten (r : Vector Half n) : (flatten r).length = 8 * n := by
  have each : ∀ l : List Half, (l.flatMap Vector.toList).length = 8 * l.length := by
    intro l
    induction l with
    | nil => rfl
    | cons x l ih =>
      rw [List.flatMap_cons, List.length_append, ih, Vector.length_toList, List.length_cons]
      omega
  rw [flatten, each, Vector.length_toList]

theorem byte_flatten (r : Vector Half n) {i k : Nat} (block : i < n) (inside : k < 8) :
    byte (flatten r) (8 * i + k) = r[i][k] := by
  have each : ∀ (l : List Half) (i : Nat) (inList : i < l.length),
      byte (l.flatMap Vector.toList) (8 * i + k) = l[i][k] := by
    intro l
    induction l with
    | nil => exact fun i inList => absurd inList (Nat.not_lt_zero i)
    | cons x l ih =>
      intro i inList
      have size : x.toList.length = 8 := Vector.length_toList
      rw [List.flatMap_cons]
      cases i with
      | zero =>
        rw [Nat.mul_zero, Nat.zero_add, byte_append_left _ (by omega), byte_toList x inside]
        rfl
      | succ i =>
        have further : 8 * (i + 1) + k = x.toList.length + (8 * i + k) := by omega
        rw [further, byte_append_right, ih i (Nat.lt_of_succ_lt_succ inList)]
        rfl
  have size : r.toList.length = n := Vector.length_toList
  rw [flatten, each r.toList i (by omega)]
  simp

theorem halves_flatten (front : List UInt8) (r : Vector Half n) :
    halves n (front ++ flatten r) front.length = r := by
  refine Vector.ext fun i block => Vector.ext fun k inside => ?_
  simp only [halves, arrayAt, Vector.getElem_ofFn, Nat.add_assoc]
  rw [byte_append_right, byte_flatten r block inside]

theorem flatten_halves {plain : List UInt8} (whole : plain.length = 8 * n) :
    flatten (halves n plain 0) = plain := by
  refine ext_byte (by rw [length_flatten, whole]) fun j inside => ?_
  rw [length_flatten] at inside
  have place : j = 8 * (j / 8) + j % 8 := by omega
  rw [place, byte_flatten _ (by omega) (Nat.mod_lt _ (by decide))]
  simp only [halves, arrayAt, Vector.getElem_ofFn, Nat.zero_add]

theorem unwrapBlocks_wrapBlocks (kek : Block) {plain : List UInt8} (whole : plain.length = 8 * n) :
    unwrapBlocks kek n (wrapBlocks kek n plain) = some plain := by
  have undo := foldl_reverse_cancel (unwrapStep_wrapStep (n := n) (Aes128.new kek)) (wrapSteps n)
    (defaultIv, halves n plain 0)
  rw [wrapBlocks, unwrapBlocks]
  generalize (wrapSteps n).foldl (wrapStep (Aes128.new kek)) (defaultIv, halves n plain 0) = s
    at undo
  have register : s.1.toList.length = 8 := Vector.length_toList
  have blocks' := halves_flatten s.1.toList s.2
  rw [register] at blocks'
  have front : arrayAt 8 (s.1.toList ++ flatten s.2) 0 = s.1 := arrayAt_append [] s.1 _
  rw [front, blocks', undo, if_pos rfl, flatten_halves whole]

/-- **Unwrapping inverts wrapping**, when the output buffer holds the plaintext. -/
theorem keyUnwrap_of_keyWrap {kek : Block} {plain wrapped : List UInt8} {room room' : Nat}
    (wraps : keyWrap kek plain room = some wrapped) (fits : plain.length ≤ room') :
    keyUnwrap kek wrapped room' = some plain ∧ wrapped.length = plain.length + 8 := by
  rw [keyWrap] at wraps
  split at wraps
  · cases wraps
  split at wraps
  · cases wraps
  rename_i shape small
  cases wraps
  have positive : 0 < plain.length := List.length_pos_iff.mpr (not_or.mp shape).1
  have whole : plain.length = 8 * (plain.length / 8) := by omega
  have size : (wrapBlocks kek (plain.length / 8) plain).length = plain.length + 8 := by
    rw [wrapBlocks, List.length_append, length_flatten, Vector.length_toList]
    omega
  have blocks' : (wrapBlocks kek (plain.length / 8) plain).length / 8 - 1 = plain.length / 8 := by
    rw [size]
    omega
  refine ⟨?_, size⟩
  rw [keyUnwrap, blocks', if_neg (by omega), if_neg (by omega), unwrapBlocks_wrapBlocks kek whole]

end RustyPenguin.Crypto
