import RustyPenguin.Crypto.Hashing
import RustyPenguin.Foundation.Unsigned

/-!
# ChaCha20-Poly1305

The stream cipher, the one-time authenticator on five limbs of 26 bits, and the AEAD made of
the two. Encrypting twice with one key, counter and nonce gives the plaintext back, and what
was sealed opens (`aeadOpen_aeadSeal`).
-/

set_option autoImplicit false

namespace RustyPenguin.Crypto

open Positions

/-! ## ChaCha20 -/

/-- The quarter round. -/
def qr (s : Vector UInt32 16) (a b c d : Fin 16) : Vector UInt32 16 :=
  let s := s.set a (s[a] + s[b])
  let s := s.set d (rotateLeft (s[d] ^^^ s[a]) 16)
  let s := s.set c (s[c] + s[d])
  let s := s.set b (rotateLeft (s[b] ^^^ s[c]) 12)
  let s := s.set a (s[a] + s[b])
  let s := s.set d (rotateLeft (s[d] ^^^ s[a]) 8)
  let s := s.set c (s[c] + s[d])
  s.set b (rotateLeft (s[b] ^^^ s[c]) 7)

/-- A column round and a diagonal round. -/
def doubleRound (x : Vector UInt32 16) : Vector UInt32 16 :=
  let x := qr x 0 4 8 12
  let x := qr x 1 5 9 13
  let x := qr x 2 6 10 14
  let x := qr x 3 7 11 15
  let x := qr x 0 5 10 15
  let x := qr x 1 6 11 12
  let x := qr x 2 7 8 13
  qr x 3 4 9 14

/-- The state of a block: the constants, the key, the counter and the nonce. -/
def chacha20State (key : Vector UInt8 32) (counter : UInt32) (nonce : Vector UInt8 12) :
    Vector UInt32 16 :=
  let k := key.toList
  let n := nonce.toList
  #v[0x61707865, 0x3320646e, 0x79622d32, 0x6b206574,
    leWord k 0, leWord k 4, leWord k 8, leWord k 12,
    leWord k 16, leWord k 20, leWord k 24, leWord k 28,
    counter, leWord n 0, leWord n 4, leWord n 8]

/-- A block of the key stream: 64 bytes. -/
def chacha20Block (key : Vector UInt8 32) (counter : UInt32) (nonce : Vector UInt8 12) :
    List UInt8 :=
  let s := chacha20State key counter nonce
  let x := (List.range 10).foldl (fun x _ => doubleRound x) s
  (Vector.ofFn fun i : Fin 16 => x[i] + s[i]).toList.flatMap leBytes

/-- Xor `data` with the key stream, for at most `steps` blocks. -/
def chacha20Blocks (key : Vector UInt8 32) (nonce : Vector UInt8 12) :
    Nat → UInt32 → List UInt8 → List UInt8
  | 0, _, _ => []
  | steps + 1, ctr, data =>
    if data = [] then []
    else
      List.zipWith (· ^^^ ·) (data.take 64) (chacha20Block key ctr nonce) ++
        chacha20Blocks key nonce steps (ctr + 1) (data.drop 64)

@[simp] theorem chacha20Blocks_zero (key : Vector UInt8 32) (nonce : Vector UInt8 12)
    (ctr : UInt32) (data : List UInt8) : chacha20Blocks key nonce 0 ctr data = [] := rfl

theorem chacha20Blocks_succ (key : Vector UInt8 32) (nonce : Vector UInt8 12) (steps : Nat)
    (ctr : UInt32) (data : List UInt8) : chacha20Blocks key nonce (steps + 1) ctr data =
      if data = [] then []
      else
        List.zipWith (· ^^^ ·) (data.take 64) (chacha20Block key ctr nonce) ++
          chacha20Blocks key nonce steps (ctr + 1) (data.drop 64) := rfl

/-- Xor `data` with the key stream that starts at `counter`. -/
def chacha20Xor (key : Vector UInt8 32) (counter : UInt32) (nonce : Vector UInt8 12)
    (data : List UInt8) : List UInt8 :=
  chacha20Blocks key nonce data.length counter data

theorem length_leBytes (x : UInt32) : (leBytes x).length = 4 := rfl

theorem length_chacha20Block (key : Vector UInt8 32) (counter : UInt32)
    (nonce : Vector UInt8 12) : (chacha20Block key counter nonce).length = 64 := by
  simp [chacha20Block, length_leBytes]

theorem zipWith_xor_cancel {data stream : List UInt8} (covers : data.length ≤ stream.length) :
    List.zipWith (· ^^^ ·) (List.zipWith (· ^^^ ·) data stream) stream = data := by
  induction data generalizing stream with
  | nil => rfl
  | cons x data ih =>
    cases stream with
    | nil => simp at covers
    | cons k stream =>
      have covers' : data.length ≤ stream.length := by simpa using covers
      have rest := ih covers'
      simp only [List.zipWith_cons_cons, rest, UInt8.xor_assoc, UInt8.xor_self, UInt8.xor_zero]

section Involution

variable (key : Vector UInt8 32) (nonce : Vector UInt8 12)

theorem length_chacha20Blocks {steps : Nat} (ctr : UInt32) {data : List UInt8}
    (enough : data.length ≤ steps) :
    (chacha20Blocks key nonce steps ctr data).length = data.length := by
  induction steps generalizing ctr data with
  | zero =>
    rw [Nat.le_zero, List.length_eq_zero_iff] at enough
    simp [enough]
  | succ steps ih =>
    by_cases empty : data = []
    · simp [chacha20Blocks_succ, empty]
    · have positive := List.length_pos_iff.mpr empty
      have restShort : (data.drop 64).length ≤ steps := by
        rw [List.length_drop]
        omega
      have rest := ih (ctr + 1) restShort
      simp only [chacha20Blocks_succ, if_neg empty, List.length_append, List.length_zipWith,
        List.length_take, length_chacha20Block, rest, List.length_drop]
      omega

theorem chacha20Blocks_cancel {steps : Nat} (ctr : UInt32) {data : List UInt8}
    (enough : data.length ≤ steps) :
    chacha20Blocks key nonce steps ctr (chacha20Blocks key nonce steps ctr data) = data := by
  induction steps generalizing ctr data with
  | zero =>
    rw [Nat.le_zero, List.length_eq_zero_iff] at enough
    simp [enough]
  | succ steps ih =>
    by_cases empty : data = []
    · simp [chacha20Blocks_succ, empty]
    have positive := List.length_pos_iff.mpr empty
    have restShort : (data.drop 64).length ≤ steps := by
      rw [List.length_drop]
      omega
    have rest := ih (ctr + 1) restShort
    have restSize := length_chacha20Blocks key nonce (ctr + 1) restShort
    -- the first block of the ciphertext is full, or there is no second one
    have front : (List.zipWith (· ^^^ ·) (data.take 64) (chacha20Block key ctr nonce)).length =
        min 64 data.length := by
      simp [length_chacha20Block]
    have covers : (data.take 64).length ≤ (chacha20Block key ctr nonce).length := by
      rw [length_chacha20Block, List.length_take]
      omega
    have split : chacha20Blocks key nonce (steps + 1) ctr data =
        List.zipWith (· ^^^ ·) (data.take 64) (chacha20Block key ctr nonce) ++
          chacha20Blocks key nonce steps (ctr + 1) (data.drop 64) := by
      rw [chacha20Blocks_succ, if_neg empty]
    rw [split]
    rw [chacha20Blocks_succ, if_neg (by
      intro none
      rw [List.append_eq_nil_iff, ← List.length_eq_zero_iff, front] at none
      omega)]
    by_cases long : 64 ≤ data.length
    · have whole : (List.zipWith (· ^^^ ·) (data.take 64)
          (chacha20Block key ctr nonce)).length = 64 := by omega
      rw [List.take_left' whole, List.drop_left' whole, zipWith_xor_cancel covers, rest,
        List.take_append_drop]
    · have none : data.drop 64 = [] := List.drop_of_length_le (by omega)
      have nothing : chacha20Blocks key nonce steps (ctr + 1) [] = [] := by
        rw [none] at restSize
        exact List.length_eq_zero_iff.mp restSize
      rw [none, nothing, List.append_nil, List.take_of_length_le (by omega),
        List.drop_of_length_le (by omega), nothing, List.append_nil, zipWith_xor_cancel covers,
        List.take_of_length_le (by omega)]

end Involution

/-- **Encrypting twice gives the data back.** -/
theorem chacha20Xor_chacha20Xor (key : Vector UInt8 32) (counter : UInt32)
    (nonce : Vector UInt8 12) (data : List UInt8) :
    chacha20Xor key counter nonce (chacha20Xor key counter nonce data) = data := by
  have size : (chacha20Xor key counter nonce data).length = data.length :=
    length_chacha20Blocks key nonce _ (Nat.le_refl _)
  rw [chacha20Xor, size]
  exact chacha20Blocks_cancel key nonce _ (Nat.le_refl _)

/-! ## Poly1305 -/

/-- The streaming state of Poly1305: the pending bytes do not fill a block. -/
structure Poly1305 where
  r : Vector UInt32 5
  h : Vector UInt32 5
  pad : Vector UInt32 4
  buf : List UInt8
  room : buf.length < 16

namespace Poly1305

def new (key : Vector UInt8 32) : Poly1305 :=
  let rd := leWord key.toList
  let t0 := rd 0
  let t1 := rd 4
  let t2 := rd 8
  let t3 := rd 12
  { r := #v[t0 &&& 0x3ffffff,
      ((t0 >>> 26) ||| (t1 <<< 6)) &&& 0x3ffff03,
      ((t1 >>> 20) ||| (t2 <<< 12)) &&& 0x3ffc0ff,
      ((t2 >>> 14) ||| (t3 <<< 18)) &&& 0x3f03fff,
      (t3 >>> 8) &&& 0x00fffff]
    h := Vector.replicate 5 0
    pad := #v[rd 16, rd 20, rd 24, rd 28]
    buf := []
    room := by decide }

/-- Add a block to the accumulator, multiply by `r` and carry. -/
def block (r : Vector UInt32 5) (hibit : UInt32) (h : Vector UInt32 5) (m : List UInt8) :
    Vector UInt32 5 :=
  let t0 := leWord m 0
  let t1 := leWord m 4
  let t2 := leWord m 8
  let t3 := leWord m 12
  let s1 := (r[1] * 5).toUInt64
  let s2 := (r[2] * 5).toUInt64
  let s3 := (r[3] * 5).toUInt64
  let s4 := (r[4] * 5).toUInt64
  let r0 := r[0].toUInt64
  let r1 := r[1].toUInt64
  let r2 := r[2].toUInt64
  let r3 := r[3].toUInt64
  let r4 := r[4].toUInt64
  let h0 := (h[0] + (t0 &&& 0x3ffffff)).toUInt64
  let h1 := (h[1] + (((t0 >>> 26) ||| (t1 <<< 6)) &&& 0x3ffffff)).toUInt64
  let h2 := (h[2] + (((t1 >>> 20) ||| (t2 <<< 12)) &&& 0x3ffffff)).toUInt64
  let h3 := (h[3] + (((t2 >>> 14) ||| (t3 <<< 18)) &&& 0x3ffffff)).toUInt64
  let h4 := (h[4] + ((t3 >>> 8) ||| hibit)).toUInt64
  let d0 := h0 * r0 + h1 * s4 + h2 * s3 + h3 * s2 + h4 * s1
  let d1 := h0 * r1 + h1 * r0 + h2 * s4 + h3 * s3 + h4 * s2
  let d2 := h0 * r2 + h1 * r1 + h2 * r0 + h3 * s4 + h4 * s3
  let d3 := h0 * r3 + h1 * r2 + h2 * r1 + h3 * r0 + h4 * s4
  let d4 := h0 * r4 + h1 * r3 + h2 * r2 + h3 * r1 + h4 * r0
  let c := (d0 >>> 26).toUInt32
  let h0 := d0.toUInt32 &&& 0x3ffffff
  let d1 := d1 + c.toUInt64
  let c := (d1 >>> 26).toUInt32
  let h1 := d1.toUInt32 &&& 0x3ffffff
  let d2 := d2 + c.toUInt64
  let c := (d2 >>> 26).toUInt32
  let h2 := d2.toUInt32 &&& 0x3ffffff
  let d3 := d3 + c.toUInt64
  let c := (d3 >>> 26).toUInt32
  let h3 := d3.toUInt32 &&& 0x3ffffff
  let d4 := d4 + c.toUInt64
  let c := (d4 >>> 26).toUInt32
  let h4 := d4.toUInt32 &&& 0x3ffffff
  let h0 := h0 + c * 5
  let c := h0 >>> 26
  #v[h0 &&& 0x3ffffff, h1 + c, h2, h3, h4]

/-- The first `n` blocks of `m`. -/
def blocks (r : Vector UInt32 5) (hibit : UInt32) :
    Nat → Vector UInt32 5 → List UInt8 → Vector UInt32 5
  | 0, h, _ => h
  | n + 1, h, m => blocks r hibit n (block r hibit h m) (m.drop 16)

/-- Take the whole blocks of `data` and keep what is left over. -/
def absorb (self : Poly1305) (h : Vector UInt32 5) (data : List UInt8) : Poly1305 where
  r := self.r
  h := blocks self.r 0x1000000 (data.length / 16) h data
  pad := self.pad
  buf := data.drop (16 * (data.length / 16))
  room := by
    rw [List.length_drop]
    omega

def update (self : Poly1305) (data : List UInt8) : Poly1305 :=
  if self.buf = [] then self.absorb self.h data
  else
    let want := min (16 - self.buf.length) data.length
    let buffer := self.buf ++ data.take want
    if short : buffer.length < 16 then { self with buf := buffer, room := short }
    else self.absorb (block self.r 0x1000000 self.h buffer) (data.drop want)

/-- The tag: the accumulator reduced and added to the pad. -/
def finalize (self : Poly1305) : Vector UInt8 16 :=
  let h :=
    if self.buf = [] then self.h
    else
      block self.r 0 self.h (self.buf ++ 1 :: List.replicate (15 - self.buf.length) 0)
  let c := h[1] >>> 26
  let h1 := h[1] &&& 0x3ffffff
  let h2 := h[2] + c
  let c := h2 >>> 26
  let h2 := h2 &&& 0x3ffffff
  let h3 := h[3] + c
  let c := h3 >>> 26
  let h3 := h3 &&& 0x3ffffff
  let h4 := h[4] + c
  let c := h4 >>> 26
  let h4 := h4 &&& 0x3ffffff
  let h0 := h[0] + c * 5
  let c := h0 >>> 26
  let h0 := h0 &&& 0x3ffffff
  let h1 := h1 + c
  let g0 := h0 + 5
  let c := g0 >>> 26
  let g0 := g0 &&& 0x3ffffff
  let g1 := h1 + c
  let c := g1 >>> 26
  let g1 := g1 &&& 0x3ffffff
  let g2 := h2 + c
  let c := g2 >>> 26
  let g2 := g2 &&& 0x3ffffff
  let g3 := h3 + c
  let c := g3 >>> 26
  let g3 := g3 &&& 0x3ffffff
  let g4 := h4 + c - 0x4000000
  let mask := (g4 >>> 31) - 1
  let nmask := ~~~mask
  let h0 := (h0 &&& nmask) ||| (g0 &&& mask)
  let h1 := (h1 &&& nmask) ||| (g1 &&& mask)
  let h2 := (h2 &&& nmask) ||| (g2 &&& mask)
  let h3 := (h3 &&& nmask) ||| (g3 &&& mask)
  let h4 := (h4 &&& nmask) ||| (g4 &&& mask)
  let f0 := (h0 ||| (h1 <<< 26)).toUInt64 + (getElem self.pad 0 zero4).toUInt64
  let f1 := ((h1 >>> 6) ||| (h2 <<< 20)).toUInt64 + (getElem self.pad 1 one4).toUInt64
  let f2 := ((h2 >>> 12) ||| (h3 <<< 14)).toUInt64 + (getElem self.pad 2 two4).toUInt64
  let f3 := ((h3 >>> 18) ||| (h4 <<< 8)).toUInt64 + (getElem self.pad 3 three4).toUInt64
  let e1 := (f0 >>> 32) + f1
  let e2 := (e1 >>> 32) + f2
  let e3 := (e2 >>> 32) + f3
  arrayAt 16 (leBytes f0.toUInt32 ++ leBytes e1.toUInt32 ++ leBytes e2.toUInt32 ++
    leBytes e3.toUInt32) 0

end Poly1305

/-! ## Poly1305 with every overflow a fault

The functions of the authenticator once more, statement by statement, over words that fault where
an addition or a multiplication leaves 32 or 64 bits, or a carry does not fit its word. Where such
a function returns, no intermediate overflowed. The additions that the program says may wrap, of
the final comparison with the prime, are left as they are. -/

namespace CheckedPoly1305

open Unsigned

/-- The limbs of the accumulator with those of a block added. -/
def addBlock (hibit : UInt32) (h : Vector UInt32 5) (m : List UInt8) :
    Checked (Vector UInt32 5) := do
  let t0 := leWord m 0
  let t1 := leWord m 4
  let t2 := leWord m 8
  let t3 := leWord m 12
  let h0 ← add32 h[0] (t0 &&& 0x3ffffff)
  let h1 ← add32 h[1] (((t0 >>> 26) ||| (t1 <<< 6)) &&& 0x3ffffff)
  let h2 ← add32 h[2] (((t1 >>> 20) ||| (t2 <<< 12)) &&& 0x3ffffff)
  let h3 ← add32 h[3] (((t2 >>> 14) ||| (t3 <<< 18)) &&& 0x3ffffff)
  let h4 ← add32 h[4] ((t3 >>> 8) ||| hibit)
  pure #v[h0, h1, h2, h3, h4]

/-- The sum of five products. -/
def row (h0 r0 h1 r1 h2 r2 h3 r3 h4 r4 : UInt64) : Checked UInt64 := do
  let d0 ← mul64 h0 r0
  let d1 ← mul64 h1 r1
  let sum ← add64 d0 d1
  let d2 ← mul64 h2 r2
  let sum ← add64 sum d2
  let d3 ← mul64 h3 r3
  let sum ← add64 sum d3
  let d4 ← mul64 h4 r4
  add64 sum d4

def multiply (r h : Vector UInt32 5) : Checked (Vector UInt64 5) := do
  let s1 ← mul32 r[1] 5
  let s2 ← mul32 r[2] 5
  let s3 ← mul32 r[3] 5
  let s4 ← mul32 r[4] 5
  let s1 := s1.toUInt64
  let s2 := s2.toUInt64
  let s3 := s3.toUInt64
  let s4 := s4.toUInt64
  let r0 := r[0].toUInt64
  let r1 := r[1].toUInt64
  let r2 := r[2].toUInt64
  let r3 := r[3].toUInt64
  let r4 := r[4].toUInt64
  let h0 := h[0].toUInt64
  let h1 := h[1].toUInt64
  let h2 := h[2].toUInt64
  let h3 := h[3].toUInt64
  let h4 := h[4].toUInt64
  let d0 ← row h0 r0 h1 s4 h2 s3 h3 s2 h4 s1
  let d1 ← row h0 r1 h1 r0 h2 s4 h3 s3 h4 s2
  let d2 ← row h0 r2 h1 r1 h2 r0 h3 s4 h4 s3
  let d3 ← row h0 r3 h1 r2 h2 r1 h3 r0 h4 s4
  let d4 ← row h0 r4 h1 r3 h2 r2 h3 r1 h4 r0
  pure #v[d0, d1, d2, d3, d4]

def carry (d : Vector UInt64 5) : Checked (Vector UInt32 5) := do
  let c ← narrow (d[0] >>> 26)
  let h0 := d[0].toUInt32 &&& 0x3ffffff
  let d1 ← add64 d[1] c.toUInt64
  let c ← narrow (d1 >>> 26)
  let h1 := d1.toUInt32 &&& 0x3ffffff
  let d2 ← add64 d[2] c.toUInt64
  let c ← narrow (d2 >>> 26)
  let h2 := d2.toUInt32 &&& 0x3ffffff
  let d3 ← add64 d[3] c.toUInt64
  let c ← narrow (d3 >>> 26)
  let h3 := d3.toUInt32 &&& 0x3ffffff
  let d4 ← add64 d[4] c.toUInt64
  let c ← narrow (d4 >>> 26)
  let h4 := d4.toUInt32 &&& 0x3ffffff
  let wrapped ← mul32 c 5
  let h0 ← add32 h0 wrapped
  let c := h0 >>> 26
  let h1 ← add32 h1 c
  pure #v[h0 &&& 0x3ffffff, h1, h2, h3, h4]

def block (r : Vector UInt32 5) (hibit : UInt32) (h : Vector UInt32 5) (m : List UInt8) :
    Checked (Vector UInt32 5) := do
  let h ← addBlock hibit h m
  let d ← multiply r h
  carry d

def blocks (r : Vector UInt32 5) (hibit : UInt32) :
    Nat → Vector UInt32 5 → List UInt8 → Checked (Vector UInt32 5)
  | 0, h, _ => pure h
  | n + 1, h, m => do
    let h ← block r hibit h m
    blocks r hibit n h (m.drop 16)

def absorb (self : Poly1305) (h : Vector UInt32 5) (data : List UInt8) : Checked Poly1305 := do
  let h ← blocks self.r 0x1000000 (data.length / 16) h data
  pure { r := self.r, h := h, pad := self.pad
         buf := data.drop (16 * (data.length / 16))
         room := by
           rw [List.length_drop]
           omega }

def update (self : Poly1305) (data : List UInt8) : Checked Poly1305 :=
  if self.buf = [] then absorb self self.h data
  else
    let want := min (16 - self.buf.length) data.length
    let buffer := self.buf ++ data.take want
    if short : buffer.length < 16 then pure { self with buf := buffer, room := short }
    else do
      let h ← block self.r 0x1000000 self.h buffer
      absorb self h (data.drop want)

/-- The accumulator with what is left of the message, as a last block of its own size. -/
def closed (self : Poly1305) : Checked (Vector UInt32 5) :=
  if self.buf = [] then pure self.h
  else block self.r 0 self.h (self.buf ++ 1 :: List.replicate (15 - self.buf.length) 0)

/-- The accumulator with its limbs reduced. -/
def settle (h : Vector UInt32 5) : Checked (Vector UInt32 5) := do
  let c := h[1] >>> 26
  let h1 := h[1] &&& 0x3ffffff
  let h2 ← add32 h[2] c
  let c := h2 >>> 26
  let h2 := h2 &&& 0x3ffffff
  let h3 ← add32 h[3] c
  let c := h3 >>> 26
  let h3 := h3 &&& 0x3ffffff
  let h4 ← add32 h[4] c
  let c := h4 >>> 26
  let h4 := h4 &&& 0x3ffffff
  let wrapped ← mul32 c 5
  let h0 ← add32 h[0] wrapped
  let c := h0 >>> 26
  let h0 := h0 &&& 0x3ffffff
  let h1 ← add32 h1 c
  pure #v[h0, h1, h2, h3, h4]

/-- The accumulator or, where that is not negative, the accumulator less the prime. -/
def freeze (h : Vector UInt32 5) : Vector UInt32 5 :=
  let g0 := h[0] + 5
  let c := g0 >>> 26
  let g0 := g0 &&& 0x3ffffff
  let g1 := h[1] + c
  let c := g1 >>> 26
  let g1 := g1 &&& 0x3ffffff
  let g2 := h[2] + c
  let c := g2 >>> 26
  let g2 := g2 &&& 0x3ffffff
  let g3 := h[3] + c
  let c := g3 >>> 26
  let g3 := g3 &&& 0x3ffffff
  let g4 := h[4] + c - 0x4000000
  let mask := (g4 >>> 31) - 1
  let nmask := ~~~mask
  #v[(h[0] &&& nmask) ||| (g0 &&& mask), (h[1] &&& nmask) ||| (g1 &&& mask),
    (h[2] &&& nmask) ||| (g2 &&& mask), (h[3] &&& nmask) ||| (g3 &&& mask),
    (h[4] &&& nmask) ||| (g4 &&& mask)]

/-- The bytes of the accumulator and the pad, added in words. -/
def addPad (h : Vector UInt32 5) (pad : Vector UInt32 4) : Checked (Vector UInt8 16) := do
  let f0 ← add64 (h[0] ||| (h[1] <<< 26)).toUInt64 (getElem pad 0 zero4).toUInt64
  let f1 ← add64 ((h[1] >>> 6) ||| (h[2] <<< 20)).toUInt64 (getElem pad 1 one4).toUInt64
  let f2 ← add64 ((h[2] >>> 12) ||| (h[3] <<< 14)).toUInt64 (getElem pad 2 two4).toUInt64
  let f3 ← add64 ((h[3] >>> 18) ||| (h[4] <<< 8)).toUInt64 (getElem pad 3 three4).toUInt64
  let e1 ← add64 (f0 >>> 32) f1
  let e2 ← add64 (e1 >>> 32) f2
  let e3 ← add64 (e2 >>> 32) f3
  pure (arrayAt 16 (leBytes f0.toUInt32 ++ leBytes e1.toUInt32 ++ leBytes e2.toUInt32 ++
    leBytes e3.toUInt32) 0)

/-- The accumulator that the tag is made of. -/
def reduced (self : Poly1305) : Checked (Vector UInt32 5) := do
  let h ← closed self
  let h ← settle h
  pure (freeze h)

def finalize (self : Poly1305) : Checked (Vector UInt8 16) := do
  let h ← reduced self
  addPad h self.pad

end CheckedPoly1305

/-! ## The limbs of Poly1305

The steps of a block and of the end of a message as functions of limbs, the numbers that limbs
hold, and how large the limbs are between the steps. -/

namespace Poly1305

/-- The prime `2 ^ 130 - 5`. -/
def prime : Nat := 2 ^ 130 - 5

/-- The number that five limbs hold. -/
def value (h : Vector UInt32 5) : Nat :=
  h[0].toNat + 2 ^ 26 * h[1].toNat + 2 ^ 52 * h[2].toNat + 2 ^ 78 * h[3].toNat +
    2 ^ 104 * h[4].toNat

/-- The number that five limbs of a product hold. -/
def wide (d : Vector UInt64 5) : Nat :=
  d[0].toNat + 2 ^ 26 * d[1].toNat + 2 ^ 52 * d[2].toNat + 2 ^ 78 * d[3].toNat +
    2 ^ 104 * d[4].toNat

/-- The limbs of a clamped key are limbs. -/
structure Clamped (r : Vector UInt32 5) : Prop where
  r0 : r[0].toNat < 2 ^ 26
  r1 : r[1].toNat < 2 ^ 26
  r2 : r[2].toNat < 2 ^ 26
  r3 : r[3].toNat < 2 ^ 26
  r4 : r[4].toNat < 2 ^ 26

/-- The limbs of the accumulator between two blocks. -/
structure Bounded (h : Vector UInt32 5) : Prop where
  h0 : h[0].toNat < 2 ^ 26
  h1 : h[1].toNat < 2 ^ 26 + 64
  h2 : h[2].toNat < 2 ^ 26
  h3 : h[3].toNat < 2 ^ 26
  h4 : h[4].toNat < 2 ^ 26

/-- The limbs of the accumulator with a block added. -/
structure Raised (h : Vector UInt32 5) : Prop where
  h0 : h[0].toNat ≤ 2 ^ 27 + 64
  h1 : h[1].toNat ≤ 2 ^ 27 + 64
  h2 : h[2].toNat ≤ 2 ^ 27 + 64
  h3 : h[3].toNat ≤ 2 ^ 27 + 64
  h4 : h[4].toNat ≤ 2 ^ 27 + 64

/-- The limbs of the product: the last one takes no part of the key fivefold. -/
structure Carriable (d : Vector UInt64 5) : Prop where
  d0 : d[0].toNat ≤ 21 * ((2 ^ 27 + 64) * 2 ^ 26)
  d1 : d[1].toNat ≤ 21 * ((2 ^ 27 + 64) * 2 ^ 26)
  d2 : d[2].toNat ≤ 21 * ((2 ^ 27 + 64) * 2 ^ 26)
  d3 : d[3].toNat ≤ 21 * ((2 ^ 27 + 64) * 2 ^ 26)
  d4 : d[4].toNat ≤ 5 * ((2 ^ 27 + 64) * 2 ^ 26)

/-- The number of the four words of a block. -/
def words (m : List UInt8) : Nat :=
  (leWord m 0).toNat + 2 ^ 32 * (leWord m 4).toNat + 2 ^ 64 * (leWord m 8).toNat +
    2 ^ 96 * (leWord m 12).toNat

/-- The limbs of the accumulator with those of a block added. -/
def addBlock (hibit : UInt32) (h : Vector UInt32 5) (m : List UInt8) : Vector UInt32 5 :=
  let t0 := leWord m 0
  let t1 := leWord m 4
  let t2 := leWord m 8
  let t3 := leWord m 12
  #v[h[0] + (t0 &&& 0x3ffffff), h[1] + (((t0 >>> 26) ||| (t1 <<< 6)) &&& 0x3ffffff),
    h[2] + (((t1 >>> 20) ||| (t2 <<< 12)) &&& 0x3ffffff),
    h[3] + (((t2 >>> 14) ||| (t3 <<< 18)) &&& 0x3ffffff), h[4] + ((t3 >>> 8) ||| hibit)]

/-- The limbs of the product of the accumulator and the key. -/
def multiply (r h : Vector UInt32 5) : Vector UInt64 5 :=
  let s1 := (r[1] * 5).toUInt64
  let s2 := (r[2] * 5).toUInt64
  let s3 := (r[3] * 5).toUInt64
  let s4 := (r[4] * 5).toUInt64
  let r0 := r[0].toUInt64
  let r1 := r[1].toUInt64
  let r2 := r[2].toUInt64
  let r3 := r[3].toUInt64
  let r4 := r[4].toUInt64
  let h0 := h[0].toUInt64
  let h1 := h[1].toUInt64
  let h2 := h[2].toUInt64
  let h3 := h[3].toUInt64
  let h4 := h[4].toUInt64
  #v[h0 * r0 + h1 * s4 + h2 * s3 + h3 * s2 + h4 * s1,
    h0 * r1 + h1 * r0 + h2 * s4 + h3 * s3 + h4 * s2,
    h0 * r2 + h1 * r1 + h2 * r0 + h3 * s4 + h4 * s3,
    h0 * r3 + h1 * r2 + h2 * r1 + h3 * r0 + h4 * s4,
    h0 * r4 + h1 * r3 + h2 * r2 + h3 * r1 + h4 * r0]

/-- The accumulator that the limbs of a product make. -/
def carry (d : Vector UInt64 5) : Vector UInt32 5 :=
  let c := (d[0] >>> 26).toUInt32
  let h0 := d[0].toUInt32 &&& 0x3ffffff
  let d1 := d[1] + c.toUInt64
  let c := (d1 >>> 26).toUInt32
  let h1 := d1.toUInt32 &&& 0x3ffffff
  let d2 := d[2] + c.toUInt64
  let c := (d2 >>> 26).toUInt32
  let h2 := d2.toUInt32 &&& 0x3ffffff
  let d3 := d[3] + c.toUInt64
  let c := (d3 >>> 26).toUInt32
  let h3 := d3.toUInt32 &&& 0x3ffffff
  let d4 := d[4] + c.toUInt64
  let c := (d4 >>> 26).toUInt32
  let h4 := d4.toUInt32 &&& 0x3ffffff
  let h0 := h0 + c * 5
  let c := h0 >>> 26
  #v[h0 &&& 0x3ffffff, h1 + c, h2, h3, h4]

/-- Every limb is reduced. -/
structure Settled (h : Vector UInt32 5) : Prop where
  h0 : h[0].toNat < 2 ^ 26
  h1 : h[1].toNat < 2 ^ 26
  h2 : h[2].toNat < 2 ^ 26
  h3 : h[3].toNat < 2 ^ 26
  h4 : h[4].toNat < 2 ^ 26

/-- The accumulator with its limbs reduced. -/
def settle (h : Vector UInt32 5) : Vector UInt32 5 :=
  let c := h[1] >>> 26
  let h1 := h[1] &&& 0x3ffffff
  let h2 := h[2] + c
  let c := h2 >>> 26
  let h2 := h2 &&& 0x3ffffff
  let h3 := h[3] + c
  let c := h3 >>> 26
  let h3 := h3 &&& 0x3ffffff
  let h4 := h[4] + c
  let c := h4 >>> 26
  let h4 := h4 &&& 0x3ffffff
  let h0 := h[0] + c * 5
  let c := h0 >>> 26
  let h0 := h0 &&& 0x3ffffff
  let h1 := h1 + c
  #v[h0, h1, h2, h3, h4]

/-- The limbs of the accumulator and five, the last one less the power of the prime. -/
def lowered (h : Vector UInt32 5) : Vector UInt32 5 :=
  let g0 := h[0] + 5
  let g1 := h[1] + (g0 >>> 26)
  let g2 := h[2] + (g1 >>> 26)
  let g3 := h[3] + (g2 >>> 26)
  #v[g0 &&& 0x3ffffff, g1 &&& 0x3ffffff, g2 &&& 0x3ffffff, g3 &&& 0x3ffffff,
    h[4] + (g3 >>> 26) - 0x4000000]

/-- The limbs of the one where the mask is all ones, and of the other where it is zero. -/
def chosen (mask : UInt32) (h g : Vector UInt32 5) : Vector UInt32 5 :=
  #v[(h[0] &&& ~~~mask) ||| (g[0] &&& mask), (h[1] &&& ~~~mask) ||| (g[1] &&& mask),
    (h[2] &&& ~~~mask) ||| (g[2] &&& mask), (h[3] &&& ~~~mask) ||| (g[3] &&& mask),
    (h[4] &&& ~~~mask) ||| (g[4] &&& mask)]

/-- All ones where the last limb is not negative, and zero where it is. -/
def keepMask (h : Vector UInt32 5) : UInt32 := (h[4] >>> 31) - 1

theorem vector_five (h : Vector UInt32 5) : #v[h[0], h[1], h[2], h[3], h[4]] = h := by
  refine Vector.ext fun i inside => ?_
  match i, inside with
  | 0, _ => rfl
  | 1, _ => rfl
  | 2, _ => rfl
  | 3, _ => rfl
  | 4, _ => rfl

theorem freeze_eq (h : Vector UInt32 5) :
    CheckedPoly1305.freeze h = chosen (keepMask (lowered h)) h (lowered h) := rfl

/-- The number of four words. -/
def padNumber (pad : Vector UInt32 4) : Nat :=
  (getElem pad 0 zero4).toNat + 2 ^ 32 * (getElem pad 1 one4).toNat +
    2 ^ 64 * (getElem pad 2 two4).toNat + 2 ^ 96 * (getElem pad 3 three4).toNat

/-- The bytes of the accumulator and the pad, added in words. -/
def addPad (h : Vector UInt32 5) (pad : Vector UInt32 4) : Vector UInt8 16 :=
  let f0 := (h[0] ||| (h[1] <<< 26)).toUInt64 + (getElem pad 0 zero4).toUInt64
  let f1 := ((h[1] >>> 6) ||| (h[2] <<< 20)).toUInt64 + (getElem pad 1 one4).toUInt64
  let f2 := ((h[2] >>> 12) ||| (h[3] <<< 14)).toUInt64 + (getElem pad 2 two4).toUInt64
  let f3 := ((h[3] >>> 18) ||| (h[4] <<< 8)).toUInt64 + (getElem pad 3 three4).toUInt64
  let e1 := (f0 >>> 32) + f1
  let e2 := (e1 >>> 32) + f2
  let e3 := (e2 >>> 32) + f3
  arrayAt 16 (leBytes f0.toUInt32 ++ leBytes e1.toUInt32 ++ leBytes e2.toUInt32 ++
    leBytes e3.toUInt32) 0

end Poly1305

/-! ## The AEAD -/

def poly1305Key (key : Vector UInt8 32) (nonce : Vector UInt8 12) : Vector UInt8 32 :=
  arrayAt 32 (chacha20Block key 0 nonce) 0

/-- The zeroes that fill the last block of a string. -/
def padding (data : List UInt8) : List UInt8 := List.replicate ((16 - data.length % 16) % 16) 0

/-- The tag over associated data and ciphertext, each padded, and their lengths. -/
def poly1305Tag (otk : Vector UInt8 32) (aad ct : List UInt8) : Vector UInt8 16 :=
  let p := (Poly1305.new otk).update aad
  let p := if padding aad = [] then p else p.update (padding aad)
  let p := p.update ct
  let p := if padding ct = [] then p else p.update (padding ct)
  let lens := leBytes64 (UInt64.ofNat aad.length) ++ leBytes64 (UInt64.ofNat ct.length)
  (p.update lens).finalize

/-- Encrypt, and return the ciphertext and its tag. -/
def aeadSeal (key : Vector UInt8 32) (nonce : Vector UInt8 12) (aad buf : List UInt8) :
    List UInt8 × Vector UInt8 16 :=
  let otk := poly1305Key key nonce
  let ct := chacha20Xor key 1 nonce buf
  (ct, poly1305Tag otk aad ct)

/-- The bits in which two tags differ. -/
def tagDiff (expect tag : Vector UInt8 16) : UInt8 :=
  (List.finRange 16).foldl (fun diff i => diff ||| (expect[i] ^^^ tag[i])) 0

/-- Verify the tag, and decrypt. -/
def aeadOpen (key : Vector UInt8 32) (nonce : Vector UInt8 12) (aad buf : List UInt8)
    (tag : Vector UInt8 16) : Option (List UInt8) :=
  let otk := poly1305Key key nonce
  if tagDiff (poly1305Tag otk aad buf) tag ≠ 0 then none
  else some (chacha20Xor key 1 nonce buf)

theorem tagDiff_self (tag : Vector UInt8 16) : tagDiff tag tag = 0 := by
  have steps : ∀ indices : List (Fin 16),
      indices.foldl (fun diff i => diff ||| (tag[i] ^^^ tag[i])) (0 : UInt8) = 0 := by
    intro indices
    induction indices with
    | nil => rfl
    | cons i indices ih => simp
  exact steps _

/-- **What was sealed opens**, with the key, nonce and associated data it was sealed with. -/
theorem aeadOpen_aeadSeal (key : Vector UInt8 32) (nonce : Vector UInt8 12)
    (aad buf : List UInt8) :
    aeadOpen key nonce aad (aeadSeal key nonce aad buf).1 (aeadSeal key nonce aad buf).2 =
      some buf := by
  simp only [aeadOpen, aeadSeal, tagDiff_self, chacha20Xor_chacha20Xor]
  rfl

theorem length_aeadSeal (key : Vector UInt8 32) (nonce : Vector UInt8 12)
    (aad buf : List UInt8) : (aeadSeal key nonce aad buf).1.length = buf.length :=
  length_chacha20Blocks key nonce _ (Nat.le_refl _)

end RustyPenguin.Crypto
