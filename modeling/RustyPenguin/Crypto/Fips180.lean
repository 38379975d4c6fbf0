import Mathlib.Data.Nat.NthRoot.Defs
import RustyPenguin.Foundation.Limbs

/-!
# The secure hash standard

SHA-1 and SHA-256 as the standard defines them: the message is padded to whole blocks of 64 bytes
and its length in bits stands at the end; a block is expanded to a schedule of words by a
recurrence, and the rounds mix the schedule into the hash value. The constants of SHA-256 are the
first 32 bits of the fractional parts of roots of primes. HMAC is two hashes over the padded key.
-/

set_option autoImplicit false

namespace RustyPenguin.Fips180

/-! ## Padding and parsing -/

/-- The zero bytes that leave eight bytes of the last block. -/
def zeroes (length : Nat) : Nat := (119 - length % 64) % 64

/-- The padded message: a one bit, zeroes, and the length in bits. -/
def pad (message : List UInt8) : List UInt8 :=
  message ++ (0x80 :: List.replicate (zeroes message.length) 0 ++
    Limbs.bytesOf 8 (8 * message.length))

/-- The blocks of a padded message. -/
def blocksOf (padded : List UInt8) : List (List UInt8) :=
  (List.range (padded.length / 64)).map fun i => (padded.drop (64 * i)).take 64

/-- The word `t` of a block. -/
def word (block : List UInt8) (t : Nat) : UInt32 :=
  UInt32.ofNat (Limbs.ofBytes ((block.drop (4 * t)).take 4))

/-- The last hash value. -/
def digest {H : Type} (compress : H → List UInt8 → H) (initial : H) (message : List UInt8) : H :=
  (blocksOf (pad message)).foldl compress initial

/-- The bytes of the words of a hash value. -/
def output (words : List UInt32) : List UInt8 := words.flatMap fun x => Limbs.bytesOf 4 x.toNat

/-! ## Functions of words -/

def rotr (n x : UInt32) : UInt32 := (x >>> n) ||| (x <<< (32 - n))

def rotl (n x : UInt32) : UInt32 := (x <<< n) ||| (x >>> (32 - n))

def ch (x y z : UInt32) : UInt32 := (x &&& y) ^^^ (~~~x &&& z)

def parity (x y z : UInt32) : UInt32 := x ^^^ y ^^^ z

def maj (x y z : UInt32) : UInt32 := (x &&& y) ^^^ (x &&& z) ^^^ (y &&& z)

/-! ## SHA-256 -/

namespace Sha256

def bigSigma0 (x : UInt32) : UInt32 := rotr 2 x ^^^ rotr 13 x ^^^ rotr 22 x

def bigSigma1 (x : UInt32) : UInt32 := rotr 6 x ^^^ rotr 11 x ^^^ rotr 25 x

def smallSigma0 (x : UInt32) : UInt32 := rotr 7 x ^^^ rotr 18 x ^^^ (x >>> 3)

def smallSigma1 (x : UInt32) : UInt32 := rotr 17 x ^^^ rotr 19 x ^^^ (x >>> 10)

/-- The first 64 primes. -/
def primes : List Nat :=
  [2, 3, 5, 7, 11, 13, 17, 19, 23, 29, 31, 37, 41, 43, 47, 53, 59, 61, 67, 71, 73, 79,
    83, 89, 97, 101, 103, 107, 109, 113, 127, 131, 137, 139, 149, 151, 157, 163, 167, 173,
    179, 181, 191, 193, 197, 199, 211, 223, 227, 229, 233, 239, 241, 251, 257, 263, 269,
    271, 277, 281, 283, 293, 307, 311]

/-- The constant of a round: the fractional part of a cube root. -/
def k (t : Nat) : UInt32 := UInt32.ofNat (Nat.nthRoot 3 (primes.getD t 0 * 2 ^ 96))

/-- The fractional part of the square root of a prime. -/
def root (t : Nat) : UInt32 := UInt32.ofNat (Nat.nthRoot 2 (primes.getD t 0 * 2 ^ 64))

/-- The schedule of a block. -/
def schedule (block : List UInt8) (t : Nat) : UInt32 :=
  if t < 16 then word block t
  else
    smallSigma1 (schedule block (t - 2)) + schedule block (t - 7) +
      smallSigma0 (schedule block (t - 15)) + schedule block (t - 16)
termination_by t

theorem schedule_word {block : List UInt8} {t : Nat} (below : t < 16) :
    schedule block t = word block t := by
  rw [schedule, if_pos below]

theorem schedule_step (block : List UInt8) (t : Nat) :
    schedule block (t + 16) = smallSigma1 (schedule block (t + 14)) + schedule block (t + 9) +
      smallSigma0 (schedule block (t + 1)) + schedule block t := by
  rw [schedule, if_neg (by omega)]
  rfl

/-- The working variables, and a hash value. -/
structure Vars where
  a : UInt32
  b : UInt32
  c : UInt32
  d : UInt32
  e : UInt32
  f : UInt32
  g : UInt32
  h : UInt32
  deriving DecidableEq

def initial : Vars := ⟨root 0, root 1, root 2, root 3, root 4, root 5, root 6, root 7⟩

/-- The working variables after a round with a constant and a word of the schedule. -/
def mix (k w : UInt32) (v : Vars) : Vars :=
  let t1 := v.h + bigSigma1 v.e + ch v.e v.f v.g + k + w
  let t2 := bigSigma0 v.a + maj v.a v.b v.c
  ⟨t1 + t2, v.a, v.b, v.c, v.d + t1, v.e, v.f, v.g⟩

def round (w : Nat → UInt32) (v : Vars) (t : Nat) : Vars := mix (k t) (w t) v

def compress (H : Vars) (block : List UInt8) : Vars :=
  let v := (List.range 64).foldl (round (schedule block)) H
  ⟨v.a + H.a, v.b + H.b, v.c + H.c, v.d + H.d, v.e + H.e, v.f + H.f, v.g + H.g, v.h + H.h⟩

def words (H : Vars) : List UInt32 := [H.a, H.b, H.c, H.d, H.e, H.f, H.g, H.h]

end Sha256

def sha256 (message : List UInt8) : List UInt8 :=
  output (Sha256.words (digest Sha256.compress Sha256.initial message))

/-! ## SHA-1 -/

namespace Sha1

/-- The function of a round. -/
def f (t : Nat) (x y z : UInt32) : UInt32 :=
  if t < 20 then ch x y z
  else if t < 40 then parity x y z
  else if t < 60 then maj x y z
  else parity x y z

/-- The constant of a round. -/
def k (t : Nat) : UInt32 :=
  if t < 20 then 0x5a827999
  else if t < 40 then 0x6ed9eba1
  else if t < 60 then 0x8f1bbcdc
  else 0xca62c1d6

/-- The schedule of a block. -/
def schedule (block : List UInt8) (t : Nat) : UInt32 :=
  if t < 16 then word block t
  else
    rotl 1 (schedule block (t - 3) ^^^ schedule block (t - 8) ^^^ schedule block (t - 14) ^^^
      schedule block (t - 16))
termination_by t

theorem schedule_word {block : List UInt8} {t : Nat} (below : t < 16) :
    schedule block t = word block t := by
  rw [schedule, if_pos below]

theorem schedule_step (block : List UInt8) (t : Nat) :
    schedule block (t + 16) = rotl 1 (schedule block (t + 13) ^^^ schedule block (t + 8) ^^^
      schedule block (t + 2) ^^^ schedule block t) := by
  rw [schedule, if_neg (by omega)]
  rfl

/-- The working variables, and a hash value. -/
structure Vars where
  a : UInt32
  b : UInt32
  c : UInt32
  d : UInt32
  e : UInt32
  deriving DecidableEq

def initial : Vars := ⟨0x67452301, 0xefcdab89, 0x98badcfe, 0x10325476, 0xc3d2e1f0⟩

/-- The working variables after a round with the value of its function, a constant and a word. -/
def mix (f k w : UInt32) (v : Vars) : Vars :=
  ⟨rotl 5 v.a + f + v.e + k + w, v.a, rotl 30 v.b, v.c, v.d⟩

def round (w : Nat → UInt32) (v : Vars) (t : Nat) : Vars :=
  mix (f t v.b v.c v.d) (k t) (w t) v

def compress (H : Vars) (block : List UInt8) : Vars :=
  let v := (List.range 80).foldl (round (schedule block)) H
  ⟨v.a + H.a, v.b + H.b, v.c + H.c, v.d + H.d, v.e + H.e⟩

def words (H : Vars) : List UInt32 := [H.a, H.b, H.c, H.d, H.e]

end Sha1

def sha1 (message : List UInt8) : List UInt8 :=
  output (Sha1.words (digest Sha1.compress Sha1.initial message))

/-! ## HMAC -/

/-- The key of an HMAC, filled up to a block. -/
def hmacKey (hash : List UInt8 → List UInt8) (key : List UInt8) : List UInt8 :=
  let key := if key.length ≤ 64 then key else hash key
  key ++ List.replicate (64 - key.length) 0

def hmac (hash : List UInt8 → List UInt8) (key text : List UInt8) : List UInt8 :=
  let outer := (hmacKey hash key).map (· ^^^ 0x5c)
  let inner := (hmacKey hash key).map (· ^^^ 0x36)
  hash (outer ++ hash (inner ++ text))

end RustyPenguin.Fips180
