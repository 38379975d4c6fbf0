import Mathlib.Data.List.GetD
import RustyPenguin.Foundation.Checked
import RustyPenguin.Foundation.Positions

/-!
# Words, and hashing block by block

Words as bytes in both orders, and the part that SHA-1 and SHA-256 share: a `Hasher`
streams bytes into a compression function over blocks of 64 bytes. It holds the chaining
value, the bytes of a block that is not yet full and the number of bytes seen. That the
pending bytes never fill a block is part of the state, so that finalisation always has
room for its padding byte.
-/

set_option autoImplicit false

namespace RustyPenguin.Crypto

/-! ## Words -/

/-- Rotate a word to the right. -/
def rotateRight (x n : UInt32) : UInt32 := (x >>> n) ||| (x <<< (32 - n))

/-- Rotate a word to the left. -/
def rotateLeft (x n : UInt32) : UInt32 := (x <<< n) ||| (x >>> (32 - n))

/-- The byte of a string at a position. -/
def byte (bytes : List UInt8) (i : Nat) : UInt8 := bytes.getD i 0

/-- The array of `n` bytes at a position. -/
def arrayAt (n : Nat) (bytes : List UInt8) (off : Nat) : Vector UInt8 n :=
  Vector.ofFn fun i => byte bytes (off + i.val)

/-- The big-endian word at a position. -/
def beWord (bytes : List UInt8) (i : Nat) : UInt32 :=
  (byte bytes i).toUInt32 <<< 24 ||| (byte bytes (i + 1)).toUInt32 <<< 16 |||
    (byte bytes (i + 2)).toUInt32 <<< 8 ||| (byte bytes (i + 3)).toUInt32

/-- The little-endian word at a position. -/
def leWord (bytes : List UInt8) (i : Nat) : UInt32 :=
  (byte bytes i).toUInt32 ||| (byte bytes (i + 1)).toUInt32 <<< 8 |||
    (byte bytes (i + 2)).toUInt32 <<< 16 ||| (byte bytes (i + 3)).toUInt32 <<< 24

/-- The bytes of a word, most significant first. -/
def beBytes (x : UInt32) : List UInt8 :=
  [(x >>> 24).toUInt8, (x >>> 16).toUInt8, (x >>> 8).toUInt8, x.toUInt8]

/-- The bytes of a word, least significant first. -/
def leBytes (x : UInt32) : List UInt8 :=
  [x.toUInt8, (x >>> 8).toUInt8, (x >>> 16).toUInt8, (x >>> 24).toUInt8]

/-- The bytes of a double word, most significant first. -/
def beBytes64 (x : UInt64) : List UInt8 :=
  beBytes (x >>> 32).toUInt32 ++ beBytes x.toUInt32

/-- The bytes of a double word, least significant first. -/
def leBytes64 (x : UInt64) : List UInt8 :=
  leBytes x.toUInt32 ++ leBytes (x >>> 32).toUInt32

theorem byte_append_left {front : List UInt8} (back : List UInt8) {i : Nat}
    (inside : i < front.length) : byte (front ++ back) i = byte front i :=
  List.getD_append _ _ _ _ inside

theorem byte_append_right (front back : List UInt8) (i : Nat) :
    byte (front ++ back) (front.length + i) = byte back i := by
  rw [byte, List.getD_append_right _ _ _ _ (Nat.le_add_right _ _), Nat.add_sub_cancel_left]
  rfl

theorem byte_toList {k : Nat} (v : Vector UInt8 k) {i : Nat} (inside : i < k) :
    byte v.toList i = v[i] := by
  simp [byte, inside]

/-- Byte strings of one length with the same bytes are the same. -/
theorem ext_byte {a b : List UInt8} (size : a.length = b.length)
    (same : ∀ i, i < a.length → byte a i = byte b i) : a = b := by
  refine List.ext_getElem size fun i inA inB => ?_
  have here := same i inA
  simpa [byte, inA, inB] using here

theorem arrayAt_append {n : Nat} (front : List UInt8) (v : Vector UInt8 n) (back : List UInt8) :
    arrayAt n (front ++ (v.toList ++ back)) front.length = v := by
  refine Vector.ext fun i inside => ?_
  have size : v.toList.length = n := Vector.length_toList
  simp only [arrayAt, Vector.getElem_ofFn]
  rw [byte_append_right, byte_append_left _ (by omega), byte_toList v inside]

/-! ## Streaming -/

/-- The streaming state over a chaining value: the pending bytes do not fill a block. -/
structure Hasher (H : Type) where
  h : H
  buf : List UInt8
  total : UInt64
  room : buf.length < 64

namespace Hasher

variable {H : Type} (block : H → List UInt8 → H)

/-- Compress the first `n` blocks of `data`. -/
def blocks : Nat → H → List UInt8 → H
  | 0, h, _ => h
  | n + 1, h, data => blocks n (block h (data.take 64)) (data.drop 64)

def new (h : H) : Hasher H where
  h := h
  buf := []
  total := 0
  room := by decide

/-- Take the whole blocks of `data` and keep what is left over. -/
def absorb (h : H) (total : UInt64) (data : List UInt8) : Hasher H where
  h := blocks block (data.length / 64) h data
  buf := data.drop (64 * (data.length / 64))
  total := total
  room := by
    rw [List.length_drop]
    omega

/-- Hash more bytes: the pending block is filled first. -/
def update (self : Hasher H) (data : List UInt8) : Hasher H :=
  let total := self.total + UInt64.ofNat data.length
  if self.buf = [] then absorb block self.h total data
  else
    let take := min (64 - self.buf.length) data.length
    let buf := self.buf ++ data.take take
    let data := data.drop take
    if full : buf.length = 64 then absorb block (block self.h buf) total data
    else
      { h := self.h, buf := buf, total := total,
        room := by
          have room := self.room
          simp only [buf, List.length_append, List.length_take] at full ⊢
          omega }

/-- Pad, and return the last chaining value. -/
def finalize (self : Hasher H) : H :=
  let bits := self.total * 8
  let buf := self.buf ++ [0x80]
  let (h, buf) :=
    if 56 < buf.length then (block self.h (buf ++ List.replicate (64 - buf.length) 0), [])
    else (self.h, buf)
  block h (buf ++ List.replicate (56 - buf.length) 0 ++ beBytes64 bits)

end Hasher

/-- The key of an HMAC, as one block. -/
def hmacKey (hash : List UInt8 → List UInt8) (key : List UInt8) : List UInt8 :=
  let k := if 64 < key.length then hash key else key
  k ++ List.replicate (64 - k.length) 0

end RustyPenguin.Crypto
