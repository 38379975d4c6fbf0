import RustyPenguin.Pkg.Repository

/-!
# Text that is read with replacements

Bytes that are the encoding of a text are read as that text: the bytes of a character are one
sequence, whatever is behind them.
-/

set_option autoImplicit false

namespace RustyPenguin.Pkg

open Foundation Files

/-- A byte that continues a sequence. -/
def Continues (b : UInt8) : Prop := 0x80 ≤ b.toNat ∧ b.toNat ≤ 0xBF

theorem sequenceLength_one {a : UInt8} (ascii : a.toNat < 0x80) (rest : Bytes) :
    sequenceLength (a :: rest) = (1, true) := by
  have small : a < 0x80 := UInt8.lt_iff_toNat_lt.mpr ascii
  simp only [sequenceLength, small, if_true]

theorem sequenceLength_two {a b : UInt8} (lead : 0xC2 ≤ a.toNat ∧ a.toNat ≤ 0xDF)
    (tail : Continues b) (rest : Bytes) : sequenceLength (a :: b :: rest) = (2, true) := by
  obtain ⟨low, high⟩ := tail
  simp only [sequenceLength, UInt8.lt_iff_toNat_lt, UInt8.le_iff_toNat_le, ← UInt8.toNat_inj,
    List.getElem?_cons_zero]
  generalize a.toNat = x at *
  generalize b.toNat = y at *
  simp
  grind

theorem sequenceLength_three {a b c : UInt8} (lead : 0xE0 ≤ a.toNat ∧ a.toNat ≤ 0xEF)
    (second : Continues b) (long : a.toNat = 0xE0 → 0xA0 ≤ b.toNat)
    (plain : a.toNat = 0xED → b.toNat ≤ 0x9F) (tail : Continues c) (rest : Bytes) :
    sequenceLength (a :: b :: c :: rest) = (3, true) := by
  obtain ⟨low, high⟩ := second
  obtain ⟨low', high'⟩ := tail
  simp only [sequenceLength, UInt8.lt_iff_toNat_lt, UInt8.le_iff_toNat_le, ← UInt8.toNat_inj,
    List.getElem?_cons_zero, List.getElem?_cons_succ]
  generalize a.toNat = x at *
  generalize b.toNat = y at *
  generalize c.toNat = z at *
  simp
  grind

theorem sequenceLength_four {a b c d : UInt8} (lead : 0xF0 ≤ a.toNat ∧ a.toNat ≤ 0xF4)
    (second : Continues b) (long : a.toNat = 0xF0 → 0x90 ≤ b.toNat)
    (last : a.toNat = 0xF4 → b.toNat ≤ 0x8F) (third : Continues c) (tail : Continues d)
    (rest : Bytes) : sequenceLength (a :: b :: c :: d :: rest) = (4, true) := by
  obtain ⟨low, high⟩ := second
  obtain ⟨low', high'⟩ := third
  obtain ⟨low'', high''⟩ := tail
  simp only [sequenceLength, UInt8.lt_iff_toNat_lt, UInt8.le_iff_toNat_le, ← UInt8.toNat_inj,
    List.getElem?_cons_zero, List.getElem?_cons_succ]
  generalize a.toNat = x at *
  generalize b.toNat = y at *
  generalize c.toNat = z at *
  generalize d.toNat = w at *
  simp
  grind

/-- **The bytes of a character are one sequence.** -/
theorem sequenceLength_char (c : Char) (rest : Bytes) :
    sequenceLength (String.utf8EncodeChar c ++ rest) = (c.utf8Size, true) := by
  have most : c.val.toNat < 0x110000 := by
    rcases c.valid with low | high
    · exact Nat.lt_trans low (by decide)
    · exact high.2
  have notSurrogate : c.val.toNat < 0xd800 ∨ 0xdfff < c.val.toNat := by
    rcases c.valid with low | high
    · exact .inl low
    · exact .inr high.1
  rw [← String.length_utf8EncodeChar, String.utf8EncodeChar]
  generalize c.val.toNat = v at most notSurrogate
  have byte {n : Nat} (small : n < 256) : (UInt8.ofNat n).toNat = n := by
    rw [UInt8.toNat_ofNat', Nat.mod_eq_of_lt small]
  have continues (n : Nat) : Continues (UInt8.ofNat (n % 0x40 + 0x80)) := by
    rw [Continues, byte (by omega)]
    omega
  split_ifs with one two three
  · exact sequenceLength_one (by rw [byte (by omega)]; omega) rest
  · exact sequenceLength_two (by rw [byte (by omega)]; omega) (continues v) rest
  · refine sequenceLength_three (by rw [byte (by omega)]; omega) (continues (v / 64)) ?_ ?_
      (continues v) rest
    · rw [byte (by omega), byte (by omega)]
      omega
    · rw [byte (by omega), byte (by omega)]
      omega
  · refine sequenceLength_four (by rw [byte (by omega)]; omega) (continues (v / 4096)) ?_ ?_
      (continues (v / 64)) (continues v) rest
    · rw [byte (by omega), byte (by omega)]
      omega
    · rw [byte (by omega), byte (by omega)]
      omega

theorem asBytes_ofList (text : Text) :
    asBytes (String.ofList text) = text.flatMap String.utf8EncodeChar := by
  rw [asBytes, String.toByteArray_ofList, List.utf8Encode, List.data_toByteArray]

/-- **The bytes of a text are read as the text.** -/
theorem fromUtf8Lossy_asBytes (text : Text) {fuel : Nat}
    (enough : (asBytes (String.ofList text)).length ≤ fuel) :
    fromUtf8Lossy fuel (asBytes (String.ofList text)) = text := by
  rw [asBytes_ofList] at *
  induction text generalizing fuel with
  | nil => cases fuel <;> rfl
  | cons c text ih =>
    have size := String.length_utf8EncodeChar c
    have positive := Char.utf8Size_pos c
    rw [List.flatMap_cons, List.length_append] at enough
    obtain ⟨fuel, rfl⟩ : ∃ n, fuel = n + 1 := ⟨fuel - 1, by omega⟩
    have own : fromUtf8 (String.utf8EncodeChar c) = some (String.ofList [c]) := by
      have bytes := asBytes_ofList [c]
      rw [List.flatMap_singleton] at bytes
      rw [← bytes, fromUtf8_asBytes]
    have more : String.utf8EncodeChar c ++ text.flatMap String.utf8EncodeChar ≠ [] := by
      intro none
      rw [List.append_eq_nil_iff] at none
      rw [none.1, List.length_nil] at size
      omega
    rw [List.flatMap_cons, fromUtf8Lossy, sequenceLength_char, ← size]
    · simp only [List.take_left, List.drop_left, own, String.toList_ofList]
      rw [ih (by omega)]
      rfl
    · exact more

end RustyPenguin.Pkg
