import RustyPenguin.Crypto.Hashing
import RustyPenguin.Crypto.X25519.Words

/-!
# X25519

The Montgomery ladder over field elements of sixteen signed 64-bit limbs, each meant to hold
16 bits; and the same functions statement by statement, over words that fault where an addition,
a subtraction, a multiplication or a shift of limbs leaves 64 bits. Where such a function
returns, no intermediate overflowed.
-/

set_option autoImplicit false

namespace RustyPenguin.Crypto

open Positions

/-- A field element: sixteen limbs. -/
abbrev Gf : Type := Vector Int64 16

def gf0 : Gf := Vector.replicate 16 0

/-- Carry out of one limb: out of the last one, 38 times into the first. -/
def carry (o : Gf) (i : Fin 16) : Gf :=
  let v := getElem o i (fin16 i) + 0x10000
  let c := v >>> 16
  let o := o.set i v (fin16 i)
  let o :=
    if inside : i.val < 15 then o.set (i.val + 1) (o[i.val + 1] + (c - 1))
    else o.set 0 (getElem o 0 zero16 + 38 * (c - 1)) zero16
  o.set i (getElem o i (fin16 i) - (c <<< 16)) (fin16 i)

def car25519 (o : Gf) : Gf := (List.finRange 16).foldl carry o

/-- Swap two elements if `b` is one. -/
def sel25519 (p q : Gf) (b : Int64) : Gf × Gf :=
  let c := ~~~(b - 1)
  (Vector.ofFn fun i => getElem p i (fin16 i) ^^^
      (c &&& (getElem p i (fin16 i) ^^^ getElem q i (fin16 i))),
    Vector.ofFn fun i => getElem q i (fin16 i) ^^^
      (c &&& (getElem p i (fin16 i) ^^^ getElem q i (fin16 i))))

/-- The borrow out of a limb. -/
def borrow (x : Int64) : Int64 := (x >>> 16) &&& 1

/-- Subtract the prime once, and keep the difference unless it is negative. -/
def subtractPrime (t : Gf) : Gf :=
  let m : Gf := gf0.set 0 (getElem t 0 zero16 - 0xffed) zero16
  let m := (List.finRange 14).foldl
    (fun (m : Gf) (k : Fin 14) =>
      let m := m.set (k.val + 1) (t[k.val + 1] - (0xffff : Int64) - borrow m[k.val])
      m.set k.val (m[k.val] &&& 0xffff)) m
  let m := m.set 15 (getElem t 15 fifteen16 - (0x7fff : Int64) -
    borrow (getElem m 14 fourteen16)) fifteen16
  let b := borrow (getElem m 15 fifteen16)
  let m := m.set 14 (getElem m 14 fourteen16 &&& 0xffff) fourteen16
  (sel25519 t m (1 - b)).1

/-- The low byte of a limb. -/
def limbByte (x : Int64) : UInt8 := x.toUInt64.toUInt8

def pack25519 (n : Gf) : Vector UInt8 32 :=
  let t := car25519 (car25519 (car25519 n))
  let t := subtractPrime (subtractPrime t)
  Vector.ofFn fun k =>
    if k.val % 2 = 0 then limbByte (t[k.val / 2] &&& 0xff) else limbByte (t[k.val / 2] >>> 8)

def unpack25519 (n : Vector UInt8 32) : Gf :=
  let o : Gf := Vector.ofFn fun i =>
    Int64.ofNat n[2 * i.val].toNat + (Int64.ofNat n[2 * i.val + 1].toNat <<< 8)
  o.set 15 (getElem o 15 fifteen16 &&& 0x7fff) fifteen16

def addGf (a b : Gf) : Gf := Vector.ofFn fun i => getElem a i (fin16 i) + getElem b i (fin16 i)

def subGf (a b : Gf) : Gf := Vector.ofFn fun i => getElem a i (fin16 i) - getElem b i (fin16 i)

def mulGf (a b : Gf) : Gf :=
  let t : Vector Int64 31 := (List.finRange 16).foldl
    (fun t i =>
      (List.finRange 16).foldl
        (fun (t : Vector Int64 31) j =>
          t.set (i.val + j.val)
            (t[i.val + j.val] + getElem a i (fin16 i) * getElem b j (fin16 j))) t)
    (Vector.replicate 31 0)
  let r : Gf := Vector.ofFn fun i =>
    if inside : i.val < 15 then t[i.val] + 38 * t[i.val + 16] else t[i.val]
  car25519 (car25519 r)

def sqGf (a : Gf) : Gf := mulGf a a

/-- Raise to the power `p - 2`. -/
def inv25519 (i : Gf) : Gf :=
  (List.range 254).foldr
    (fun a c => if a ≠ 2 ∧ a ≠ 4 then mulGf (sqGf c) i else sqGf c) i

/-- The constant 121665. -/
def gf121665 : Gf := (gf0.set 0 0xDB41 zero16).set 1 1 one16

/-- The two points of the ladder, each as a fraction. -/
structure Ladder where
  a : Gf
  b : Gf
  c : Gf
  d : Gf

/-- Swap the two points if `r` is one. -/
def Ladder.sel (s : Ladder) (r : Int64) : Ladder :=
  let (a, b) := sel25519 s.a s.b r
  let (c, d) := sel25519 s.c s.d r
  ⟨a, b, c, d⟩

/-- One step of the ladder, for one bit of the scalar. -/
def Ladder.step (x : Gf) (s : Ladder) (r : Int64) : Ladder :=
  let s := s.sel r
  let e := addGf s.a s.c
  let a := subGf s.a s.c
  let c := addGf s.b s.d
  let b := subGf s.b s.d
  let d := sqGf e
  let f := sqGf a
  let a := mulGf c a
  let c := mulGf b e
  let e := addGf a c
  let a := subGf a c
  let b := sqGf a
  let c := subGf d f
  let a := mulGf c gf121665
  let a := addGf a d
  let c := mulGf c a
  let a := mulGf d f
  let d := mulGf b x
  let b := sqGf e
  Ladder.sel ⟨a, b, c, d⟩ r

/-- The scalar with its fixed bits set and cleared. -/
def clamp (n : Vector UInt8 32) : Vector UInt8 32 :=
  let z := n.set 31 ((n[31] &&& 127) ||| 64)
  z.set 0 (z[0] &&& 248)

/-- A bit of the scalar. -/
def scalarBit (z : Vector UInt8 32) (i : Nat) : Int64 :=
  Int64.ofNat ((byte z.toList (i / 8)).toNat / 2 ^ (i % 8) % 2)

/-- X25519 scalar multiplication. -/
def x25519 (n p : Vector UInt8 32) : Vector UInt8 32 :=
  let z := clamp n
  let x := unpack25519 p
  let start : Ladder := ⟨gf0.set 0 1 zero16, x, gf0, gf0.set 0 1 zero16⟩
  let s := (List.range 255).foldr (fun i s => Ladder.step x s (scalarBit z i)) start
  pack25519 (mulGf s.a (inv25519 s.c))

/-- The public key of a scalar: the base point is 9. -/
def x25519Base (private' : Vector UInt8 32) : Vector UInt8 32 :=
  x25519 private' ((Vector.replicate 32 0).set 0 9)

/-! ## With every overflow a fault -/

namespace Checked25519


def carry (o : Gf) (i : Fin 16) : Checked Gf := do
  let v ← Word.add (getElem o i (fin16 i)) 0x10000
  let c := v >>> 16
  let o := o.set i v (fin16 i)
  let above ← Word.sub c 1
  let o ←
    if inside : i.val < 15 then do
      let x ← Word.add o[i.val + 1] above
      pure (o.set (i.val + 1) x)
    else do
      let y ← Word.mul 38 above
      let x ← Word.add (getElem o 0 zero16) y
      pure (o.set 0 x zero16)
  let w ← Word.shl16 c
  let x ← Word.sub (getElem o i (fin16 i)) w
  pure (o.set i x (fin16 i))

def car25519 (o : Gf) : Checked Gf := (List.finRange 16).foldlM carry o

def sel25519 (p q : Gf) (b : Int64) : Checked (Gf × Gf) := do
  let _ ← Word.sub b 1
  pure (Crypto.sel25519 p q b)

/-- Fill the limbs one by one. -/
def fill (limb : Fin 16 → Checked Int64) : Checked Gf :=
  (List.finRange 16).foldlM
    (fun (o : Gf) i => do
      let x ← limb i
      pure (o.set i x (fin16 i))) gf0

def addGf (a b : Gf) : Checked Gf :=
  fill fun i => Word.add (getElem a i (fin16 i)) (getElem b i (fin16 i))

def subGf (a b : Gf) : Checked Gf :=
  fill fun i => Word.sub (getElem a i (fin16 i)) (getElem b i (fin16 i))

/-- Add one partial product. -/
def accumulate (a b : Gf) (i : Fin 16) (t : Vector Int64 31) (j : Fin 16) :
    Checked (Vector Int64 31) := do
  let y ← Word.mul (getElem a i (fin16 i)) (getElem b j (fin16 j))
  let x ← Word.add t[i.val + j.val] y
  pure (t.set (i.val + j.val) x)

def mulGf (a b : Gf) : Checked Gf := do
  let t ← (List.finRange 16).foldlM
    (fun t i => (List.finRange 16).foldlM (accumulate a b i) t) (Vector.replicate 31 0)
  let r ← fill fun i =>
    if inside : i.val < 15 then do
      let y ← Word.mul 38 t[i.val + 16]
      Word.add t[i.val] y
    else pure t[i.val]
  let r ← car25519 r
  car25519 r

def sqGf (a : Gf) : Checked Gf := mulGf a a

def inv25519 (i : Gf) : Checked Gf :=
  (List.range 254).foldrM
    (fun a c => do
      let c ← sqGf c
      if a ≠ 2 ∧ a ≠ 4 then mulGf c i else pure c) i

/-- Subtract the prime's limb `0xffff` and the borrow of the limb below. -/
def subtractPrime (t : Gf) : Checked Gf := do
  let m0 ← Word.sub (getElem t 0 zero16) 0xffed
  let m ← (List.finRange 14).foldlM
    (fun (m : Gf) (k : Fin 14) => do
      let d ← Word.sub t[k.val + 1] 0xffff
      let x ← Word.sub d (borrow m[k.val])
      let m := m.set (k.val + 1) x
      pure (m.set k.val (m[k.val] &&& 0xffff))) (gf0.set 0 m0 zero16)
  let d ← Word.sub (getElem t 15 fifteen16) 0x7fff
  let x ← Word.sub d (borrow (getElem m 14 fourteen16))
  let m := m.set 15 x fifteen16
  let b := borrow (getElem m 15 fifteen16)
  let m := m.set 14 (getElem m 14 fourteen16 &&& 0xffff) fourteen16
  let keep ← Word.sub 1 b
  let (t, _) ← sel25519 t m keep
  pure t

def pack25519 (n : Gf) : Checked (Vector UInt8 32) := do
  let t ← car25519 n
  let t ← car25519 t
  let t ← car25519 t
  let t ← subtractPrime t
  let t ← subtractPrime t
  pure (Vector.ofFn fun k =>
    if k.val % 2 = 0 then limbByte (t[k.val / 2] &&& 0xff) else limbByte (t[k.val / 2] >>> 8))

def sel (s : Ladder) (r : Int64) : Checked Ladder := do
  let (a, b) ← sel25519 s.a s.b r
  let (c, d) ← sel25519 s.c s.d r
  pure ⟨a, b, c, d⟩

def step (x : Gf) (s : Ladder) (r : Int64) : Checked Ladder := do
  let s ← sel s r
  let e ← addGf s.a s.c
  let a ← subGf s.a s.c
  let c ← addGf s.b s.d
  let b ← subGf s.b s.d
  let d ← sqGf e
  let f ← sqGf a
  let a ← mulGf c a
  let c ← mulGf b e
  let e ← addGf a c
  let a ← subGf a c
  let b ← sqGf a
  let c ← subGf d f
  let a ← mulGf c gf121665
  let a ← addGf a d
  let c ← mulGf c a
  let a ← mulGf d f
  let d ← mulGf b x
  let b ← sqGf e
  sel ⟨a, b, c, d⟩ r

def x25519 (n p : Vector UInt8 32) : Checked (Vector UInt8 32) := do
  let z := clamp n
  let x := unpack25519 p
  let start : Ladder := ⟨gf0.set 0 1 zero16, x, gf0, gf0.set 0 1 zero16⟩
  let s ← (List.range 255).foldrM (fun i s => step x s (scalarBit z i)) start
  let inverse ← inv25519 s.c
  let q ← mulGf s.a inverse
  pack25519 q

end Checked25519

end RustyPenguin.Crypto
