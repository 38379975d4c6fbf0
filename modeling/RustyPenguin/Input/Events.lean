import Mathlib.Data.BitVec

/-!
# Input events

Keys and mouse packets as 64-bit values, as the kernel packs them and the desktop takes them apart.
-/

set_option autoImplicit false

namespace RustyPenguin.Input

abbrev RawEvent := BitVec 64

/-- The value of `push_key`. -/
def keyEvent (ascii scancode : BitVec 8) : RawEvent :=
  (0x01 : BitVec 64) <<< 56 ||| scancode.setWidth 64 <<< 8 ||| ascii.setWidth 64

/-- The value of `push_mouse`. -/
def mouseEvent (x y : BitVec 16) (buttons : BitVec 8) : RawEvent :=
  (0x02 : BitVec 64) <<< 56 ||| buttons.setWidth 64 <<< 32 ||| y.setWidth 64 <<< 16 ||| x.setWidth 64

def eventType (ev : RawEvent) : BitVec 8 := (ev >>> 56).setWidth 8

def eventAscii (ev : RawEvent) : BitVec 8 := (ev &&& 0xFF).setWidth 8

def eventX (ev : RawEvent) : BitVec 32 := ((ev &&& 0xFFFF).setWidth 16).setWidth 32

def eventY (ev : RawEvent) : BitVec 32 := ((ev >>> 16 &&& 0xFFFF).setWidth 16).setWidth 32

def eventButtons (ev : RawEvent) : BitVec 8 := (ev >>> 32 &&& 0xFF).setWidth 8

/-! ## Packed fields -/

section Fields

variable {w : Nat} {k f m : Nat}

/-- A field below the place that is read is shifted out. -/
theorem below_field (a : BitVec w) (apart : k + w ≤ f) : (a.setWidth 64 <<< k) >>> f = 0#64 := by
  ext i inside
  simp
  intro _ _ _
  refine BitVec.getLsbD_of_ge a (f + i - k) ?_
  omega

theorem lowest_field (a : BitVec w) (apart : w ≤ f) : a.setWidth 64 >>> f = 0#64 := by
  have shifted := below_field (k := 0) a (f := f) (by omega)
  rwa [BitVec.shiftLeft_zero] at shifted

/-- A field above the bits that are read is cut off. -/
theorem above_field (a : BitVec 64) (apart : f + m ≤ k) : ((a <<< k) >>> f).setWidth m = 0#m := by
  ext i inside
  simp
  omega

theorem above_lowest (a : BitVec 64) (apart : m ≤ k) : (a <<< k).setWidth m = 0#m := by
  have cut := above_field (f := 0) a (m := m) (k := k) (by omega)
  rwa [BitVec.ushiftRight_zero] at cut

/-- A field is read at its place. -/
theorem read_field (a : BitVec w) (fits : k + w ≤ 64) : ((a.setWidth 64 <<< k) >>> k).setWidth w = a := by
  ext i inside
  have low : k + i < 64 := by omega
  have small : i < 64 := by omega
  simp [low, small, BitVec.getLsbD_eq_getElem inside]

theorem read_lowest (a : BitVec w) (fits : w ≤ 64) : (a.setWidth 64).setWidth w = a := by
  have read := read_field (k := 0) a (by omega)
  rwa [BitVec.shiftLeft_zero, BitVec.ushiftRight_zero] at read

theorem setWidth_and_allOnes (v : BitVec 64) (fits : w ≤ 64) :
    (v &&& (BitVec.allOnes w).setWidth 64).setWidth w = v.setWidth w := by
  ext i inside
  have small : i < 64 := by omega
  simp [inside, small]

theorem low_byte (v : BitVec 64) : (v &&& 0xFF).setWidth 8 = v.setWidth 8 :=
  setWidth_and_allOnes v (by decide)

theorem low_half (v : BitVec 64) : (v &&& 0xFFFF).setWidth 16 = v.setWidth 16 :=
  setWidth_and_allOnes v (by decide)

end Fields

/-! ## What is packed is taken apart -/

section Packed

variable (ascii scancode buttons : BitVec 8) (x y : BitVec 16)

@[simp] theorem eventType_keyEvent : eventType (keyEvent ascii scancode) = 0x01 := by
  rw [eventType, keyEvent, BitVec.ushiftRight_or_distrib, BitVec.ushiftRight_or_distrib,
    below_field scancode (by decide), lowest_field ascii (by decide)]
  decide

@[simp] theorem eventAscii_keyEvent : eventAscii (keyEvent ascii scancode) = ascii := by
  rw [eventAscii, low_byte, keyEvent, BitVec.setWidth_or, BitVec.setWidth_or,
    above_lowest _ (by decide), above_lowest _ (by decide), read_lowest ascii (by decide)]
  exact BitVec.zero_or

@[simp] theorem eventType_mouseEvent : eventType (mouseEvent x y buttons) = 0x02 := by
  rw [eventType, mouseEvent, BitVec.ushiftRight_or_distrib, BitVec.ushiftRight_or_distrib,
    BitVec.ushiftRight_or_distrib, below_field buttons (by decide), below_field y (by decide),
    lowest_field x (by decide)]
  decide

@[simp] theorem eventX_mouseEvent : eventX (mouseEvent x y buttons) = x.setWidth 32 := by
  have field : (mouseEvent x y buttons).setWidth 16 = x := by
    rw [mouseEvent, BitVec.setWidth_or, BitVec.setWidth_or, BitVec.setWidth_or,
      above_lowest _ (by decide), above_lowest _ (by decide), above_lowest _ (by decide),
      read_lowest x (by decide)]
    exact BitVec.zero_or
  rw [eventX, low_half, field]

@[simp] theorem eventY_mouseEvent : eventY (mouseEvent x y buttons) = y.setWidth 32 := by
  have field : (mouseEvent x y buttons >>> 16).setWidth 16 = y := by
    rw [mouseEvent, BitVec.ushiftRight_or_distrib, BitVec.ushiftRight_or_distrib,
      BitVec.ushiftRight_or_distrib, BitVec.setWidth_or, BitVec.setWidth_or, BitVec.setWidth_or,
      lowest_field x (by decide), read_field y (by decide), above_field _ (by decide),
      above_field _ (by decide), BitVec.or_zero, BitVec.zero_or, BitVec.setWidth_zero, BitVec.or_zero]
  rw [eventY, low_half, field]

@[simp] theorem eventButtons_mouseEvent : eventButtons (mouseEvent x y buttons) = buttons := by
  rw [eventButtons, low_byte, mouseEvent, BitVec.ushiftRight_or_distrib, BitVec.ushiftRight_or_distrib,
    BitVec.ushiftRight_or_distrib, BitVec.setWidth_or, BitVec.setWidth_or, BitVec.setWidth_or,
    below_field y (by decide), lowest_field x (by decide), read_field buttons (by decide),
    above_field _ (by decide), BitVec.zero_or, BitVec.setWidth_zero, BitVec.or_zero, BitVec.or_zero]

end Packed

end RustyPenguin.Input
