import RustyPenguin.Crypto.Hashing

/-!
# SHA-1, HMAC-SHA1 and the pairwise key

SHA-1 is used by WPA2 inside HMAC only: for the integrity codes of the handshake frames
and, through the pseudo-random function of IEEE 802.11i, for the pairwise transient key.
That key is expanded from the two addresses and the two nonces in a fixed order, so that
both peers derive the same one (`ptk_comm`).
-/

set_option autoImplicit false

namespace RustyPenguin.Crypto

open Positions

open Checked

namespace Sha1

/-- The message schedule of a block: its 16 words and the 64 derived from them. -/
def schedule (blk : List UInt8) : Vector UInt32 80 :=
  (List.finRange 64).foldl
    (fun w k =>
      w.set (k.val + 16)
        (rotateLeft (w[k.val + 13] ^^^ w[k.val + 8] ^^^ w[k.val + 2] ^^^ w[k.val]) 1))
    (Vector.ofFn fun i => if i.val < 16 then beWord blk (4 * i.val) else 0)

/-- The function and the constant of a round. -/
def roundFunction (i : Nat) (b c d : UInt32) : UInt32 × UInt32 :=
  if i < 20 then ((b &&& c) ||| (~~~b &&& d), 0x5A827999)
  else if i < 40 then (b ^^^ c ^^^ d, 0x6ED9EBA1)
  else if i < 60 then ((b &&& c) ||| (b &&& d) ||| (c &&& d), 0x8F1BBCDC)
  else (b ^^^ c ^^^ d, 0xCA62C1D6)

def round (w : Vector UInt32 80) (s : Vector UInt32 5) (i : Fin 80) : Vector UInt32 5 :=
  let a := getElem s 0 zero5
  let b := getElem s 1 one5
  let c := getElem s 2 two5
  let d := getElem s 3 three5
  let e := getElem s 4 four5
  let (f, k) := roundFunction i.val b c d
  let t := rotateLeft a 5 + f + e + k + w[i]
  #v[t, a, rotateLeft b 30, c, d]

/-- Compress one block of 64 bytes into the chaining value. -/
def block (h : Vector UInt32 5) (blk : List UInt8) : Vector UInt32 5 :=
  let w := schedule blk
  let s := (List.finRange 80).foldl (round w) h
  Vector.ofFn fun i => h[i] + s[i]

end Sha1

/-- The streaming state of SHA-1. -/
abbrev Sha1 : Type := Hasher (Vector UInt32 5)

namespace Sha1

def new : Sha1 := Hasher.new #v[0x67452301, 0xEFCDAB89, 0x98BADCFE, 0x10325476, 0xC3D2E1F0]

def update (self : Sha1) (data : List UInt8) : Sha1 := Hasher.update block self data

def finalize (self : Sha1) : List UInt8 := (Hasher.finalize block self).toList.flatMap beBytes

end Sha1

def sha1 (data : List UInt8) : List UInt8 := Sha1.finalize (Sha1.update Sha1.new data)

/-- Streaming HMAC-SHA1: the inner hash, and the outer key block. -/
structure HmacSha1 where
  inner : Sha1
  opad : List UInt8

namespace HmacSha1

def new (key : List UInt8) : HmacSha1 where
  inner := Sha1.update Sha1.new ((hmacKey sha1 key).map (· ^^^ 0x36))
  opad := (hmacKey sha1 key).map (· ^^^ 0x5c)

def update (self : HmacSha1) (data : List UInt8) : HmacSha1 :=
  { self with inner := Sha1.update self.inner data }

def finalize (self : HmacSha1) : List UInt8 :=
  let ih := Sha1.finalize self.inner
  Sha1.finalize (Sha1.update (Sha1.update Sha1.new self.opad) ih)

end HmacSha1

def hmacSha1 (key msg : List UInt8) : List UInt8 := ((HmacSha1.new key).update msg).finalize

/-! ## The pairwise key -/

/-- One block of the pseudo-random function. -/
def prfBlock (key label data : List UInt8) (counter : Nat) : List UInt8 :=
  (((((HmacSha1.new key).update label).update [0]).update data).update
    [UInt8.ofNat counter]).finalize

/-- Blocks until `left` bytes are there; the counter is a byte. -/
def prfBlocks (key label data : List UInt8) : Nat → Nat → Nat → Checked (List UInt8)
  | 0, _, left => if left = 0 then pure [] else fault
  | steps + 1, counter, left =>
    if left = 0 then pure []
    else do
      let take := min left 20
      let next ← addIn 8 counter 1
      let rest ← prfBlocks key label data steps next (left - take)
      pure ((prfBlock key label data counter).take take ++ rest)

/-- The pseudo-random function of IEEE 802.11i, to `len` bytes. -/
def prf (key label data : List UInt8) (len : Nat) : Checked (List UInt8) :=
  prfBlocks key label data len 0 len

/-- The smaller of two byte strings, then the larger. -/
def minMax (a b : List UInt8) : List UInt8 := if a ≤ b then a ++ b else b ++ a

/-- The bytes of `"Pairwise key expansion"`. -/
def pairwiseLabel : List UInt8 :=
  [0x50, 0x61, 0x69, 0x72, 0x77, 0x69, 0x73, 0x65, 0x20, 0x6b, 0x65, 0x79, 0x20, 0x65, 0x78, 0x70,
    0x61, 0x6e, 0x73, 0x69, 0x6f, 0x6e]

/-- The pairwise transient key, to `len` bytes. -/
def ptk (pmk aa spa anonce snonce : List UInt8) (len : Nat) : Checked (List UInt8) :=
  prf pmk pairwiseLabel (minMax aa spa ++ minMax anonce snonce) len

theorem minMax_comm (a b : List UInt8) : minMax a b = minMax b a := by
  rw [minMax, minMax]
  by_cases ab : a ≤ b
  · by_cases ba : b ≤ a
    · rw [List.le_antisymm ab ba]
    · rw [if_pos ab, if_neg ba]
  · have ba : b ≤ a := (List.le_total a b).resolve_left ab
    rw [if_neg ab, if_pos ba]

/-- The key does not depend on which peer derives it. -/
theorem ptk_comm (pmk aa spa anonce snonce : List UInt8) (len : Nat) :
    ptk pmk aa spa anonce snonce len = ptk pmk spa aa snonce anonce len := by
  rw [ptk, ptk, minMax_comm aa spa, minMax_comm anonce snonce]

theorem length_sha1_finalize (s : Sha1) : (Sha1.finalize s).length = 20 := by
  simp [Sha1.finalize, beBytes]

theorem length_prfBlock (key label data : List UInt8) (counter : Nat) :
    (prfBlock key label data counter).length = 20 :=
  length_sha1_finalize _

theorem length_hmacSha1 (key msg : List UInt8) : (hmacSha1 key msg).length = 20 :=
  length_sha1_finalize _

theorem prfBlocks_ok (key label data : List UInt8) (steps counter left : Nat)
    (enough : left ≤ 20 * steps) (small : counter + (left + 19) / 20 < 256) :
    ∃ out, prfBlocks key label data steps counter left = .ok out ∧ out.length = left := by
  induction steps generalizing counter left with
  | zero =>
    have none : left = 0 := by omega
    rw [prfBlocks, if_pos none]
    exact ⟨[], rfl, none.symm⟩
  | succ steps ih =>
    rw [prfBlocks]
    by_cases none : left = 0
    · rw [if_pos none]
      exact ⟨[], rfl, none.symm⟩
    · rw [if_neg none]
      obtain ⟨rest, ran, size⟩ := ih (counter + 1) (left - min left 20) (by omega) (by omega)
      have fits : addIn 8 counter 1 = .ok (counter + 1) := if_pos (by omega)
      refine ⟨_, bind_eq_ok.mpr ⟨_, fits, bind_eq_ok.mpr ⟨rest, ran, rfl⟩⟩, ?_⟩
      rw [List.length_append, List.length_take, length_prfBlock, size]
      omega

/-- A pairwise key of at most 255 blocks is derived, and has the length asked for. -/
theorem ptk_ok (pmk aa spa anonce snonce : List UInt8) {len : Nat} (small : len ≤ 5080) :
    ∃ out, ptk pmk aa spa anonce snonce len = .ok out ∧ out.length = len :=
  prfBlocks_ok _ _ _ len 0 len (by omega) (by omega)

end RustyPenguin.Crypto
