import RustyPenguin.Crypto.Sha256

/-!
# Modular exponentiation

Numbers are little-endian lists of 64-bit limbs, the modulus is odd, and products are
Montgomery products in the CIOS form: one limb of the multiplier at a time, each followed
by one step of reduction. The two inner loops of a step are the same row operation, a
multiply-and-add of one limb along a list with a carry.

Sums and products of double words are checked: a step faults if one of them leaves its
128 or 64 bits, or if two lists that are walked together differ in length.
-/

set_option autoImplicit false

namespace RustyPenguin.Crypto

open Checked

/-- `-n⁻¹` modulo `2^64`, by six Newton steps. -/
def n0inv (n0 : UInt64) : UInt64 :=
  0 - (List.range 6).foldl (fun x _ => x * (2 - n0 * x)) 1

/-- One byte of `fromBe`, at bit position `bit`. -/
def fromBeStep (k : Nat) (s : List UInt64 × Nat) (b : UInt8) : List UInt64 × Nat :=
  let (limbs, bit) := s
  let limb := bit / 64
  let shift := bit % 64
  let limbs :=
    if limb < k then
      let limbs := limbs.modify limb (· ||| b.toUInt64 <<< UInt64.ofNat shift)
      if 56 < shift ∧ limb + 1 < k then
        limbs.modify (limb + 1) (· ||| b.toUInt64 >>> UInt64.ofNat (64 - shift))
      else limbs
    else limbs
  (limbs, bit + 8)

/-- Big-endian bytes as `k` little-endian limbs. -/
def fromBe (bytes : List UInt8) (k : Nat) : List UInt64 :=
  (bytes.reverse.foldl (fromBeStep k) (List.replicate k 0, 0)).1

/-- Little-endian limbs as big-endian bytes. -/
def toBe (limbs : List UInt64) : List UInt8 := limbs.reverse.flatMap beBytes64

/-- Compare the lowest `i` limbs, from the top. -/
def geFrom (a b : List UInt64) : Nat → Checked Bool
  | 0 => pure true
  | i + 1 => do
    let x ← index a i
    let y ← index b i
    if x ≠ y then pure (decide (y < x)) else geFrom a b i

/-- `a ≥ b` for limbs of equal length. -/
def ge (a b : List UInt64) : Checked Bool := geFrom a b a.length

/-- Subtraction that wraps in 128 bits. -/
def wrappingSub128 (x y : Nat) : Nat := (x + (2 ^ 128 - y)) % 2 ^ 128

/-- `a - b` with a borrow in. -/
def subBorrow : Nat → List UInt64 → List UInt64 → Checked (List UInt64)
  | _, [], _ => pure []
  | _, _ :: _, [] => fault
  | borrow, x :: a, y :: b => do
    let v := wrappingSub128 (wrappingSub128 x.toNat y.toNat) borrow
    let rest ← subBorrow ((v >>> 64) &&& 1) a b
    pure (UInt64.ofNat v :: rest)

/-- `a -= b`. -/
def subAssign (a b : List UInt64) : Checked (List UInt64) := subBorrow 0 a b

/-- `t + a * m` with a carry in, limb by limb, and the carry out. -/
def row (m : Nat) : Nat → List UInt64 → List UInt64 → Checked (List UInt64 × Nat)
  | c, [], [] => pure ([], c)
  | c, x :: a, y :: t => do
    let p ← mulIn 128 x.toNat m
    let v ← addIn 128 y.toNat p
    let v ← addIn 128 v c
    let (rest, c) ← row m (v >>> 64) a t
    pure (UInt64.ofNat v :: rest, c)
  | _, _, _ => fault

/-- The accumulator of a Montgomery product: its limbs and the one above them. -/
structure Accumulator where
  limbs : List UInt64
  top : UInt64

/-- One limb of the multiplier, and one step of reduction. -/
def montStep (a n : List UInt64) (n0i : UInt64) (t : Accumulator) (bi : UInt64) :
    Checked Accumulator := do
  let (limbs, c) ← row bi.toNat 0 a t.limbs
  let x ← addIn 128 t.top.toNat c
  let above := UInt64.ofNat (x >>> 64)
  match limbs, n with
  | t0 :: rest, n0 :: nrest => do
    let m ← mulIn 128 t0.toNat n0i.toNat
    let m := m % 2 ^ 64
    let p ← mulIn 128 m n0.toNat
    let y ← addIn 128 t0.toNat p
    let (low, c2) ← row m (y >>> 64) nrest rest
    let z ← addIn 128 (UInt64.ofNat x).toNat c2
    let top ← addIn 64 above.toNat (z >>> 64)
    pure ⟨low ++ [UInt64.ofNat z], UInt64.ofNat top⟩
  | _, _ => fault

/-- Montgomery product: `a * b * R⁻¹ mod n`. -/
def montMul (a b n : List UInt64) (n0i : UInt64) : Checked (List UInt64) :=
  if b.length < n.length then fault
  else do
    let t ← (b.take n.length).foldlM (montStep a n n0i) ⟨List.replicate n.length 0, 0⟩
    let big ← (if t.top ≠ 0 then pure true else ge t.limbs n)
    if big then subAssign t.limbs n else pure t.limbs

/-- Double a number, with the bit shifted out. -/
def shl1 : UInt64 → List UInt64 → List UInt64 × UInt64
  | carry, [] => ([], carry)
  | carry, x :: a =>
    let (rest, out) := shl1 (x >>> 63) a
    (((x <<< 1) ||| carry) :: rest, out)

/-- Double modulo `n`. -/
def double (n a : List UInt64) : Checked (List UInt64) := do
  let (shifted, carry) := shl1 0 a
  let big ← (if carry ≠ 0 then pure true else ge shifted n)
  if big then subAssign shifted n else pure shifted

/-- Trim leading zero bytes, down to one byte. -/
def trimZeros : List UInt8 → List UInt8
  | x :: y :: rest => if x = 0 then trimZeros (y :: rest) else x :: y :: rest
  | short => short

/-- The bits of a byte, most significant first. -/
def bitsOf (b : UInt8) : List Bool := (List.range 8).reverse.map fun i => b.toNat.testBit i

/-- One bit of the exponent: nothing has been multiplied before the first set bit. -/
def expStep (aMont n : List UInt64) (n0i : UInt64) (result : Option (List UInt64)) (bit : Bool) :
    Checked (Option (List UInt64)) :=
  match result with
  | none => pure (if bit then some aMont else none)
  | some r => do
    let r ← montMul r r n n0i
    if bit then some <$> montMul r aMont n n0i else pure (some r)

/-- `base ^ exp mod n` over big-endian bytes; empty for an empty or even modulus. -/
def modExp (base exp n : List UInt8) : Checked (List UInt8) :=
  let nTrim := trimZeros n
  let k := (nTrim.length + 7) / 8
  if k = 0 then pure []
  else do
    let nl := fromBe nTrim k
    let n0 ← index nl 0
    if n0 &&& 1 = 0 then pure []
    else do
      let n0i := n0inv n0
      let one := (List.replicate k 0).set 0 1
      let rr ← (List.range (128 * k)).foldlM (fun r _ => double nl r) one
      let baseL := fromBe base k
      let big ← ge baseL nl
      let baseL ← (if big then subAssign baseL nl else pure baseL)
      let aMont ← montMul baseL rr nl n0i
      let result ← (exp.flatMap bitsOf).foldlM (expStep aMont nl n0i) none
      match result with
      | none => pure (toBe one)
      | some r => do
        let r ← montMul r one nl n0i
        pure (toBe r)

end RustyPenguin.Crypto
