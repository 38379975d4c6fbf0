import RustyPenguin.Crypto.Sha256

/-!
# ECDSA over P-256

Verification of ECDSA signatures: 256-bit integers as four little-endian limbs,
arithmetic modulo the field prime with the fast reduction of its special form, arithmetic
modulo the group order bit by bit, Jacobian point operations and the verification itself.

Carries and borrows of 128-bit intermediates are natural numbers and integers here; the
words of the fast reduction are the signed accumulators of the source.
-/

set_option autoImplicit false

namespace RustyPenguin.Crypto.P256

open Positions

/-- A 256-bit integer, least significant limb first. -/
abbrev U256 : Type := Vector UInt64 4

def P : U256 := #v[0xFFFFFFFFFFFFFFFF, 0x00000000FFFFFFFF, 0x0000000000000000, 0xFFFFFFFF00000001]

def N : U256 := #v[0xF3B9CAC2FC632551, 0xBCE6FAADA7179E84, 0xFFFFFFFFFFFFFFFF, 0xFFFFFFFF00000000]

def GX : U256 := #v[0xF4A13945D898C296, 0x77037D812DEB33A0, 0xF8BCE6E563A440F2, 0x6B17D1F2E12C4247]

def GY : U256 := #v[0xCBB6406837BF51F5, 0x2BCE33576B315ECE, 0x8EE7EB4A7C0F9E16, 0x4FE342E2FE1A7F9B]

def zero : U256 := #v[0, 0, 0, 0]

/-- A small constant. -/
def small (x : UInt64) : U256 := #v[x, 0, 0, 0]

/-! ## 256-bit integers -/

def isZero (a : U256) : Bool := a[0] == 0 && a[1] == 0 && a[2] == 0 && a[3] == 0

/-- Is `a` strictly less than `b`? -/
def lt256 (a b : U256) : Bool :=
  if a[3] ≠ b[3] then a[3] < b[3]
  else if a[2] ≠ b[2] then a[2] < b[2]
  else if a[1] ≠ b[1] then a[1] < b[1]
  else a[0] < b[0]

/-- `a + b` with the carry out. -/
def add256c (a b : U256) : U256 × Bool :=
  let s0 := a[0].toNat + b[0].toNat
  let s1 := a[1].toNat + b[1].toNat + s0 >>> 64
  let s2 := a[2].toNat + b[2].toNat + s1 >>> 64
  let s3 := a[3].toNat + b[3].toNat + s2 >>> 64
  (#v[UInt64.ofNat s0, UInt64.ofNat s1, UInt64.ofNat s2, UInt64.ofNat s3], s3 >>> 64 != 0)

/-- The borrow of a difference. -/
def borrow (d : Int) : Int := if d < 0 then 1 else 0

/-- `a - b` with the borrow out. -/
def sub256b (a b : U256) : U256 × Bool :=
  let d0 : Int := a[0].toNat - b[0].toNat
  let d1 : Int := a[1].toNat - b[1].toNat - borrow d0
  let d2 : Int := a[2].toNat - b[2].toNat - borrow d1
  let d3 : Int := a[3].toNat - b[3].toNat - borrow d2
  (#v[UInt64.ofInt d0, UInt64.ofInt d1, UInt64.ofInt d2, UInt64.ofInt d3], borrow d3 != 0)

/-- Subtract `m` when that does not borrow. -/
def condSub (a m : U256) : U256 :=
  let (r, borrowed) := sub256b a m
  if borrowed then a else r

/-! ## Arithmetic modulo the field prime -/

def fpAdd (a b : U256) : U256 :=
  let (r, carry) := add256c a b
  let r := if carry then (sub256b r P).1 else r
  condSub r P

def fpSub (a b : U256) : U256 :=
  let (r, borrowed) := sub256b a b
  if borrowed then (add256c r P).1 else r

/-- One row of the schoolbook product: add `a * b` from limb `i` of `r` on. -/
def mulRow (a : UInt64) (b : U256) (r : Vector UInt64 8) (i : Fin 4) : Vector UInt64 8 :=
  let p0 := a.toNat * b[0].toNat + r[i.val].toNat
  let p1 := a.toNat * b[1].toNat + r[i.val + 1].toNat + p0 >>> 64
  let p2 := a.toNat * b[2].toNat + r[i.val + 2].toNat + p1 >>> 64
  let p3 := a.toNat * b[3].toNat + r[i.val + 3].toNat + p2 >>> 64
  ((((r.set i.val (UInt64.ofNat p0)).set (i.val + 1) (UInt64.ofNat p1)).set (i.val + 2)
    (UInt64.ofNat p2)).set (i.val + 3) (UInt64.ofNat p3)).set (i.val + 4) (UInt64.ofNat (p3 >>> 64))

/-- Five limbs of a product overwritten from a limb on. -/
def overwrite (r : Vector UInt64 8) (i : Fin 4) (x0 x1 x2 x3 x4 : UInt64) : Vector UInt64 8 :=
  ((((r.set i.val x0).set (i.val + 1) x1).set (i.val + 2) x2).set (i.val + 3) x3).set (i.val + 4) x4

/-- The full product. -/
def mul512 (a b : U256) : Vector UInt64 8 :=
  (List.finRange 4).foldl (fun r i => mulRow (getElem a i (fin4 i)) b r i) (Vector.replicate 8 0)

/-- The 32-bit words of a product. -/
def words (wide : Vector UInt64 8) : Vector Int 16 :=
  Vector.ofFn fun i => (wide[i.val / 2].toNat >>> (32 * (i.val % 2))) % 2 ^ 32

/-- The signed sums of the fast reduction, word by word and least significant first. -/
def accumulate (w : Vector Int 16) : Vector Int 9 :=
  let s1 : Vector Int 9 := #v[w[0], w[1], w[2], w[3], w[4], w[5], w[6], w[7], 0]
  let s2 : Vector Int 9 := #v[0, 0, 0, w[11], w[12], w[13], w[14], w[15], 0]
  let s3 : Vector Int 9 := #v[0, 0, 0, 0, w[12], w[13], w[14], w[15], 0]
  let s4 : Vector Int 9 := #v[w[8], w[9], w[10], 0, 0, 0, w[14], w[15], 0]
  let s5 : Vector Int 9 := #v[w[9], w[10], w[11], w[13], w[14], w[15], w[13], w[8], 0]
  let d1 : Vector Int 9 := #v[w[11], w[12], w[13], 0, 0, 0, w[8], w[10], 0]
  let d2 : Vector Int 9 := #v[w[12], w[13], w[14], w[15], 0, 0, w[9], w[11], 0]
  let d3 : Vector Int 9 := #v[w[13], w[14], w[15], w[8], w[9], w[10], 0, w[12], 0]
  let d4 : Vector Int 9 := #v[w[14], w[15], 0, w[9], w[10], w[11], 0, w[13], 0]
  Vector.ofFn fun i =>
    s1[i] + 2 * s2[i] + 2 * s3[i] + s4[i] + s5[i] - d1[i] - d2[i] - d3[i] - d4[i]

/-- One pass of carries and borrows. -/
def carryPass (acc : Vector Int 9) : Vector Int 9 :=
  (List.finRange 8).foldl
    (fun acc i =>
      (acc.set (i.val + 1) (acc[i.val + 1] + acc[i.val] / 2 ^ 32)).set i.val
        (acc[i.val] % 2 ^ 32))
    acc

/-- The fast reduction. What the last accumulator holds is not folded back. -/
def reduceP256 (c : Vector UInt64 8) : U256 :=
  let acc := carryPass (carryPass (accumulate (words c)))
  let r : U256 := Vector.ofFn fun i =>
    UInt64.ofInt acc[2 * i.val] ||| UInt64.ofInt acc[2 * i.val + 1] <<< 32
  (List.range 4).foldl (fun r _ => condSub r P) r

def fpMul (a b : U256) : U256 := reduceP256 (mul512 a b)

def fpSqr (a : U256) : U256 := fpMul a a

/-- The bits of an integer, least significant first. -/
def bitsLe (a : U256) : List Bool :=
  (List.finRange 4).flatMap fun i =>
    (List.range 64).map fun k => (getElem a i (fin4 i)).toNat.testBit k

/-- Square-and-multiply over the bits of an exponent. -/
def power (mul : U256 → U256 → U256) (exponent a : U256) : U256 :=
  ((bitsLe exponent).foldl
    (fun s bit => (if bit then mul s.1 s.2 else s.1, mul s.2 s.2)) (small 1, a)).1

def primeMinus2 : U256 :=
  #v[0xFFFFFFFFFFFFFFFD, 0x00000000FFFFFFFF, 0x0000000000000000, 0xFFFFFFFF00000001]

/-- Inverse modulo the field prime, as the power `p - 2`. -/
def fpInv (a : U256) : U256 := power fpMul primeMinus2 a

/-! ## Arithmetic modulo the group order -/

def fnAdd (a b : U256) : U256 :=
  let (r, carry) := add256c a b
  let r := if carry then (sub256b r N).1 else r
  condSub r N

def fnSub (a b : U256) : U256 :=
  let (r, borrowed) := sub256b a b
  if borrowed then (add256c r N).1 else r

/-- The shifted limbs of a doubling. -/
def shifted (a : U256) : U256 := #v[a[0] <<< 1, a[1] <<< 1 ||| a[0] >>> 63,
  a[2] <<< 1 ||| a[1] >>> 63, a[3] <<< 1 ||| a[2] >>> 63]

/-- Double modulo the group order. -/
def fnDouble (a : U256) : U256 :=
  let top := a[3] >>> 63
  let a : U256 := #v[a[0] <<< 1, a[1] <<< 1 ||| a[0] >>> 63, a[2] <<< 1 ||| a[1] >>> 63,
    a[3] <<< 1 ||| a[2] >>> 63]
  condSub (if top ≠ 0 then fnSub a N else a) N

/-- Multiply bit by bit: the accumulator and the doubled factor. -/
def fnMul (a b : U256) : U256 :=
  ((bitsLe b).foldl
    (fun s bit => (if bit then fnAdd s.1 s.2 else s.1, fnDouble s.2)) (zero, a)).1

/-- Inverse modulo the group order, as the power `n - 2`. -/
def fnInv (a : U256) : U256 :=
  power fnMul
    #v[0xF3B9CAC2FC63254F, 0xBCE6FAADA7179E84, 0xFFFFFFFFFFFFFFFF, 0xFFFFFFFF00000000] a

/-! ## Points -/

/-- A point in Jacobian coordinates: `(X/Z², Y/Z³)`, or the point at infinity for `Z = 0`. -/
structure Jac where
  x : U256
  y : U256
  z : U256

def jacDouble (p : Jac) : Jac :=
  if isZero p.z then p
  else
    let y2 := fpSqr p.y
    let s := fpMul (fpMul (small 4) p.x) y2
    let x2 := fpSqr p.x
    let z4 := fpSqr (fpSqr p.z)
    let m := fpMul (small 3) (fpSub x2 z4)
    let x3 := fpSub (fpSqr m) (fpAdd s s)
    let y3 := fpSub (fpMul m (fpSub s x3)) (fpMul (small 8) (fpSqr y2))
    let z3 := fpMul (fpMul (small 2) p.y) p.z
    ⟨x3, y3, z3⟩

def jacAdd (a b : Jac) : Jac :=
  if isZero a.z then b
  else if isZero b.z then a
  else
    let z1sq := fpSqr a.z
    let z2sq := fpSqr b.z
    let u1 := fpMul a.x z2sq
    let u2 := fpMul b.x z1sq
    let s1 := fpMul a.y (fpMul b.z z2sq)
    let s2 := fpMul b.y (fpMul a.z z1sq)
    let h := fpSub u2 u1
    let r := fpSub s2 s1
    if isZero h then if isZero r then jacDouble a else ⟨zero, zero, zero⟩
    else
      let h2 := fpSqr h
      let h3 := fpMul h h2
      let uh2 := fpMul u1 h2
      let x3 := fpSub (fpSub (fpSqr r) h3) (fpAdd uh2 uh2)
      let y3 := fpSub (fpMul r (fpSub uh2 x3)) (fpMul s1 h3)
      let z3 := fpMul (fpMul h a.z) b.z
      ⟨x3, y3, z3⟩

/-- The affine coordinates of a point, unless it is at infinity. -/
def jacToAffine (p : Jac) : Option (U256 × U256) :=
  if isZero p.z then none
  else
    let zi := fpInv p.z
    let zi2 := fpSqr zi
    let zi3 := fpMul zi zi2
    some (fpMul p.x zi2, fpMul p.y zi3)

/-- Left-to-right double-and-add. -/
def scalarMul (k px py : U256) : Option (U256 × U256) :=
  jacToAffine ((bitsLe k).reverse.foldl
    (fun r bit => if bit then jacAdd (jacDouble r) ⟨px, py, small 1⟩ else jacDouble r)
    ⟨zero, zero, zero⟩)

/-! ## Verification -/

/-- The last 32 bytes of a big-endian string, as limbs. -/
def fromBe32 (b : List UInt8) : U256 :=
  Vector.ofFn fun k =>
    (List.range 8).foldl
      (fun v j =>
        let src : Int := b.length - 32 + ((3 - k.val) * 8 + j : Nat)
        if 0 ≤ src then (v <<< 8) ||| (byte b src.toNat).toUInt64 else v) 0

/-- Strip leading zero bytes. -/
def strip (b : List UInt8) : List UInt8 := b.dropWhile (· == 0)

/-- Verify an ECDSA signature over a 32-byte hash. -/
def verify (pubX pubY hash rBytes sBytes : List UInt8) : Bool :=
  let rBytes := strip rBytes
  let sBytes := strip sBytes
  if rBytes = [] ∨ sBytes = [] then false
  else if 32 < rBytes.length ∨ 32 < sBytes.length then false
  else
    let r := fromBe32 rBytes
    let s := fromBe32 sBytes
    let e := fromBe32 hash
    let qx := fromBe32 pubX
    let qy := fromBe32 pubY
    if isZero r || isZero s then false
    else if !lt256 r N || !lt256 s N then false
    else
      let w := fnInv s
      let u1 := fnMul e w
      let u2 := fnMul r w
      match scalarMul u1 GX GY with
      | none => false
      | some (g1x, g1y) =>
        match scalarMul u2 qx qy with
        | none => false
        | some (q1x, q1y) =>
          match jacToAffine (jacAdd ⟨g1x, g1y, small 1⟩ ⟨q1x, q1y, small 1⟩) with
          | none => false
          | some (ax, _) => condSub ax N == r || ax == r

end RustyPenguin.Crypto.P256
