import RustyPenguin.Crypto.Hashing

/-!
# SHA-256, HMAC and HKDF

The compression function of SHA-256, streamed by a `Hasher`, and the two constructions
over the hash that the TLS key schedule is made of. Byte strings are lists; words live in
vectors of fixed size.
-/

set_option autoImplicit false

namespace RustyPenguin.Crypto

open Checked

/-! ## SHA-256 -/

def sha256K : Vector UInt32 64 := #v[
    0x428a2f98, 0x71374491, 0xb5c0fbcf, 0xe9b5dba5, 0x3956c25b, 0x59f111f1, 0x923f82a4, 0xab1c5ed5,
    0xd807aa98, 0x12835b01, 0x243185be, 0x550c7dc3, 0x72be5d74, 0x80deb1fe, 0x9bdc06a7, 0xc19bf174,
    0xe49b69c1, 0xefbe4786, 0x0fc19dc6, 0x240ca1cc, 0x2de92c6f, 0x4a7484aa, 0x5cb0a9dc, 0x76f988da,
    0x983e5152, 0xa831c66d, 0xb00327c8, 0xbf597fc7, 0xc6e00bf3, 0xd5a79147, 0x06ca6351, 0x14292967,
    0x27b70a85, 0x2e1b2138, 0x4d2c6dfc, 0x53380d13, 0x650a7354, 0x766a0abb, 0x81c2c92e, 0x92722c85,
    0xa2bfe8a1, 0xa81a664b, 0xc24b8b70, 0xc76c51a3, 0xd192e819, 0xd6990624, 0xf40e3585, 0x106aa070,
    0x19a4c116, 0x1e376c08, 0x2748774c, 0x34b0bcb5, 0x391c0cb3, 0x4ed8aa4a, 0x5b9cca4f, 0x682e6ff3,
    0x748f82ee, 0x78a5636f, 0x84c87814, 0x8cc70208, 0x90befffa, 0xa4506ceb, 0xbef9a3f7, 0xc67178f2]

/-- The message schedule of a block: its 16 words and the 48 derived from them. -/
def schedule (blk : List UInt8) : Vector UInt32 64 :=
  (List.finRange 48).foldl
    (fun w k =>
      let w15 := w[k.val + 1]
      let w2 := w[k.val + 14]
      let s0 := rotateRight w15 7 ^^^ rotateRight w15 18 ^^^ (w15 >>> 3)
      let s1 := rotateRight w2 17 ^^^ rotateRight w2 19 ^^^ (w2 >>> 10)
      w.set (k.val + 16) (w[k.val] + s0 + w[k.val + 9] + s1))
    (Vector.ofFn fun i => if i.val < 16 then beWord blk (4 * i.val) else 0)

/-- One round of the compression function. -/
def round (w : Vector UInt32 64) (s : Vector UInt32 8) (i : Fin 64) : Vector UInt32 8 :=
  let a := s[0]
  let b := s[1]
  let c := s[2]
  let d := s[3]
  let e := s[4]
  let f := s[5]
  let g := s[6]
  let hh := s[7]
  let s1 := rotateRight e 6 ^^^ rotateRight e 11 ^^^ rotateRight e 25
  let ch := (e &&& f) ^^^ (~~~e &&& g)
  let t1 := hh + s1 + ch + sha256K[i] + w[i]
  let s0 := rotateRight a 2 ^^^ rotateRight a 13 ^^^ rotateRight a 22
  let maj := (a &&& b) ^^^ (a &&& c) ^^^ (b &&& c)
  let t2 := s0 + maj
  #v[t1 + t2, a, b, c, d + t1, e, f, g]

/-- A round of the program with a constant and a word of the schedule. -/
def sha256Mix (k w : UInt32) (s : Vector UInt32 8) : Vector UInt32 8 :=
  let a := s[0]
  let b := s[1]
  let c := s[2]
  let d := s[3]
  let e := s[4]
  let f := s[5]
  let g := s[6]
  let hh := s[7]
  let s1 := rotateRight e 6 ^^^ rotateRight e 11 ^^^ rotateRight e 25
  let ch := (e &&& f) ^^^ (~~~e &&& g)
  let t1 := hh + s1 + ch + k + w
  let s0 := rotateRight a 2 ^^^ rotateRight a 13 ^^^ rotateRight a 22
  let maj := (a &&& b) ^^^ (a &&& c) ^^^ (b &&& c)
  let t2 := s0 + maj
  #v[t1 + t2, a, b, c, d + t1, e, f, g]

/-- Compress one block of 64 bytes into the chaining value. -/
def block (h : Vector UInt32 8) (blk : List UInt8) : Vector UInt32 8 :=
  let w := schedule blk
  let s := (List.finRange 64).foldl (round w) h
  Vector.ofFn fun i => h[i] + s[i]

/-- The streaming state of SHA-256. -/
abbrev Sha256 : Type := Hasher (Vector UInt32 8)

namespace Sha256

def new : Sha256 :=
  Hasher.new #v[0x6a09e667, 0xbb67ae85, 0x3c6ef372, 0xa54ff53a,
    0x510e527f, 0x9b05688c, 0x1f83d9ab, 0x5be0cd19]

def update (self : Sha256) (data : List UInt8) : Sha256 := Hasher.update block self data

def finalize (self : Sha256) : List UInt8 := (Hasher.finalize block self).toList.flatMap beBytes

end Sha256

def sha256 (data : List UInt8) : List UInt8 := Sha256.finalize (Sha256.update Sha256.new data)

/-! ## HMAC and HKDF -/

def hmacSha256 (key msg : List UInt8) : List UInt8 :=
  let k := hmacKey sha256 key
  let inner := Sha256.update Sha256.new (k.map (· ^^^ 0x36))
  let ih := Sha256.finalize (Sha256.update inner msg)
  let outer := Sha256.update Sha256.new (k.map (· ^^^ 0x5c))
  Sha256.finalize (Sha256.update outer ih)

def hkdfExtract (salt ikm : List UInt8) : List UInt8 := hmacSha256 salt ikm

/-- The blocks `T(counter), T(counter + 1), …` until `left` bytes are there. -/
def hkdfBlocks (prk info : List UInt8) : Nat → List UInt8 → UInt8 → Nat → List UInt8
  | 0, _, _, _ => []
  | steps + 1, t, counter, left =>
    if left = 0 then []
    else
      let t := hmacSha256 prk (t ++ info.take 600 ++ [counter])
      let take := min left 32
      t.take take ++ hkdfBlocks prk info steps t (counter + 1) (left - take)

/-- HKDF-Expand to `len` bytes. -/
def hkdfExpand (prk info : List UInt8) (len : Nat) : List UInt8 :=
  hkdfBlocks prk info len [] 1 len

/-- The bytes of `"tls13 "`. -/
def tls13 : List UInt8 := [0x74, 0x6c, 0x73, 0x31, 0x33, 0x20]

/-- The label structure: it is built in a buffer of 600 bytes. -/
def hkdfLabel (label context : List UInt8) (len : Nat) : Checked (List UInt8) :=
  let info := [UInt8.ofNat (len >>> 8), UInt8.ofNat len] ++ [UInt8.ofNat (6 + label.length)] ++
    tls13 ++ label ++ [UInt8.ofNat context.length] ++ context
  if info.length ≤ 600 then pure info else fault

/-- TLS 1.3 HKDF-Expand-Label. -/
def hkdfExpandLabel (secret label context : List UInt8) (len : Nat) : Checked (List UInt8) := do
  let info ← hkdfLabel label context len
  pure (hkdfExpand secret info len)

/-- Derive-Secret, over the hash of the messages. -/
def deriveSecret (secret label transcriptHash : List UInt8) : Checked (List UInt8) :=
  hkdfExpandLabel secret label transcriptHash 32

theorem length_sha256_finalize (s : Sha256) : (Sha256.finalize s).length = 32 := by
  simp [Sha256.finalize, beBytes]

theorem length_hmacSha256 (key msg : List UInt8) : (hmacSha256 key msg).length = 32 :=
  length_sha256_finalize _

/-- Labels and contexts of ordinary length fit the buffer. -/
theorem exists_hkdfExpandLabel {label context : List UInt8}
    (fits : label.length + context.length ≤ 590) (secret : List UInt8) (len : Nat) :
    ∃ out, hkdfExpandLabel secret label context len = .ok out := by
  have room : ([UInt8.ofNat (len >>> 8), UInt8.ofNat len] ++ [UInt8.ofNat (6 + label.length)] ++
      tls13 ++ label ++ [UInt8.ofNat context.length] ++ context).length ≤ 600 := by
    simp [tls13]
    omega
  simp only [hkdfExpandLabel, hkdfLabel, if_pos room]
  exact ⟨_, rfl⟩

end RustyPenguin.Crypto
