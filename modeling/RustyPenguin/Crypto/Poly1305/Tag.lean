import Mathlib.Algebra.BigOperators.Intervals
import Mathlib.Algebra.BigOperators.Ring.Finset
import RustyPenguin.Crypto.Poly1305.Freeze
import RustyPenguin.Foundation.Streams

/-!
# The tag of Poly1305

The message is cut into blocks of 16 bytes, of which the last may be shorter; each is a number,
with a one above its bytes. The polynomial that has these numbers as its coefficients is evaluated
at the clamped half of the key, modulo the prime, and the other half of the key is added. The
program computes that tag however the message is handed to it, without an overflow
(`authenticate_spec`).
-/

set_option autoImplicit false

namespace RustyPenguin.Crypto.Poly1305

open Unsigned

/-! ## What the tag is -/

/-- The bits that the clamp leaves. -/
def clamp (r : Nat) : Nat := r &&& 0x0ffffffc0ffffffc0ffffffc0fffffff

/-- Where the polynomial is evaluated: the first half of the key, clamped. -/
def point (key : Vector UInt8 32) : Nat := clamp (leNumber (key.toList.take 16))

/-- What is added to the polynomial: the second half of the key. -/
def blind (key : Vector UInt8 32) : Nat := leNumber (key.toList.drop 16)

/-- The number of a block: its bytes and a one above them. -/
def blockNumber (message : List UInt8) (i : Nat) : Nat :=
  leNumber ((message.drop (16 * i)).take 16 ++ [1])

/-- The number of blocks, the last of which may be shorter than the others. -/
def blockCount (message : List UInt8) : Nat := (message.length + 15) / 16

/-- The polynomial of a message. -/
def polynomial (message : List UInt8) (r : Nat) : Nat :=
  ∑ i ∈ Finset.range (blockCount message),
    blockNumber message i * r ^ (blockCount message - i)

/-! ## Words as numbers of bytes -/

theorem byte_drop (l : List UInt8) (k i : Nat) : byte (l.drop k) i = byte l (k + i) := by
  simp [byte, List.getD_eq_getElem?_getD]

theorem leWord_drop (l : List UInt8) (k i : Nat) : leWord (l.drop k) i = leWord l (k + i) := by
  simp only [leWord, byte_drop, Nat.add_assoc]

theorem leNumber_take_four {l : List UInt8} (whole : 4 ≤ l.length) :
    leNumber (l.take 4) = (leWord l 0).toNat := by
  match l, whole with
  | b0 :: b1 :: b2 :: b3 :: rest, _ =>
    rw [toNat_leWord]
    simp [byte]
    omega

/-- Bytes from a position on, four of them first. -/
theorem leNumber_take_add {l : List UInt8} (k i : Nat) (whole : k + 4 ≤ l.length) :
    leNumber ((l.drop k).take (4 + i)) =
      (leWord l k).toNat + 2 ^ 32 * leNumber ((l.drop (k + 4)).take i) := by
  have size : 4 ≤ (l.drop k).length := by
    rw [List.length_drop]
    omega
  have four : ((l.drop k).take 4).length = 4 := by
    rw [List.length_take]
    omega
  rw [List.take_add, leNumber_append, leNumber_take_four size, leWord_drop, four,
    List.drop_drop, Nat.add_zero]
  rfl

theorem leNumber_take_sixteen {l : List UInt8} (k : Nat) (whole : k + 16 ≤ l.length) :
    leNumber ((l.drop k).take 16) = (leWord l k).toNat + 2 ^ 32 * (leWord l (k + 4)).toNat +
      2 ^ 64 * (leWord l (k + 8)).toNat + 2 ^ 96 * (leWord l (k + 12)).toNat := by
  rw [leNumber_take_add k 12 (by omega), leNumber_take_add (k + 4) 8 (by omega),
    leNumber_take_add (k + 8) 4 (by omega), leNumber_take_add (k + 12) 0 (by omega),
    List.take_zero, leNumber_nil]
  omega

theorem words_eq {m : List UInt8} (whole : 16 ≤ m.length) : words m = leNumber (m.take 16) :=
  (leNumber_take_sixteen 0 (by omega)).symm

/-! ## The key -/

/-- A mask acts on the lowest limb and on the rest. -/
theorem and_limb {x y : Nat} (above mask : Nat) (limb : x < 2 ^ 26) (limb' : y < 2 ^ 26) :
    (x + 2 ^ 26 * above) &&& (y + 2 ^ 26 * mask) = (x &&& y) + 2 ^ 26 * (above &&& mask) := by
  have parts := Nat.mod_add_div ((x + 2 ^ 26 * above) &&& (y + 2 ^ 26 * mask)) (2 ^ 26)
  rw [Nat.and_mod_two_pow, Nat.and_div_two_pow, Nat.add_mul_mod_self_left,
    Nat.add_mul_mod_self_left, Nat.mod_eq_of_lt limb, Nat.mod_eq_of_lt limb',
    Nat.add_mul_div_left _ _ (by decide), Nat.add_mul_div_left _ _ (by decide),
    Nat.div_eq_of_lt limb, Nat.div_eq_of_lt limb', Nat.zero_add, Nat.zero_add] at parts
  exact parts.symm

/-- The clamp of a number in limbs. -/
theorem clamp_limbs {x0 x1 x2 x3 : Nat} (x4 : Nat) (limb0 : x0 < 2 ^ 26) (limb1 : x1 < 2 ^ 26)
    (limb2 : x2 < 2 ^ 26) (limb3 : x3 < 2 ^ 26) :
    clamp (x0 + 2 ^ 26 * (x1 + 2 ^ 26 * (x2 + 2 ^ 26 * (x3 + 2 ^ 26 * x4)))) =
      x0 + 2 ^ 26 * ((x1 &&& 0x3ffff03) + 2 ^ 26 * ((x2 &&& 0x3ffc0ff) +
        2 ^ 26 * ((x3 &&& 0x3f03fff) + 2 ^ 26 * (x4 &&& 0xfffff)))) := by
  have mask : 0x0ffffffc0ffffffc0ffffffc0fffffff = 0x3ffffff + 2 ^ 26 * (0x3ffff03 +
      2 ^ 26 * (0x3ffc0ff + 2 ^ 26 * (0x3f03fff + 2 ^ 26 * 0xfffff))) := by decide
  have all : x0 &&& 0x3ffffff = x0 :=
    (Nat.and_two_pow_sub_one_eq_mod x0 26).trans (Nat.mod_eq_of_lt limb0)
  rw [clamp, mask, and_limb _ _ limb0 (by decide), and_limb _ _ limb1 (by decide),
    and_limb _ _ limb2 (by decide), and_limb _ _ limb3 (by decide), all]

/-- A narrower mask after the one of a limb. -/
theorem toNat_and_narrow {x m : UInt32} (inside : m &&& 0x3ffffff = m) :
    (x &&& m).toNat = (x &&& 0x3ffffff).toNat &&& m.toNat := by
  rw [← UInt32.toNat_and, UInt32.and_assoc, UInt32.and_comm 0x3ffffff, inside]

theorem length_key (key : Vector UInt8 32) : key.toList.length = 32 := Vector.length_toList

theorem new_clamped (key : Vector UInt8 32) :
    Clamped (new key).r ∧ value (new key).r = point key := by
  have w0 := (leWord key.toList 0).toNat_lt
  have w1 := (leWord key.toList 4).toNat_lt
  have w2 := (leWord key.toList 8).toNat_lt
  have w3 := (leWord key.toList 12).toNat_lt
  have r0 := toNat_low (leWord key.toList 0)
  have r1 := toNat_across (leWord key.toList 0) (leWord key.toList 4) 26 6 (k := 6) rfl rfl
    (by decide) (by decide)
  have r2 := toNat_across (leWord key.toList 4) (leWord key.toList 8) 20 12 (k := 12) rfl rfl
    (by decide) (by decide)
  have r3 := toNat_across (leWord key.toList 8) (leWord key.toList 12) 14 18 (k := 18) rfl rfl
    (by decide) (by decide)
  have r4 : (leWord key.toList 12 >>> 8).toNat = (leWord key.toList 12).toNat / 2 ^ 8 :=
    toNat_shr (leWord key.toList 12) 8 (by decide)
  have e0 : (new key).r[0].toNat = (leWord key.toList 0).toNat % 2 ^ 26 := r0
  have e1 : (new key).r[1].toNat = _ &&& 0x3ffff03 :=
    (toNat_and_narrow (m := 0x3ffff03) (by decide)).trans (congrArg (· &&& 0x3ffff03) r1)
  have e2 : (new key).r[2].toNat = _ &&& 0x3ffc0ff :=
    (toNat_and_narrow (m := 0x3ffc0ff) (by decide)).trans (congrArg (· &&& 0x3ffc0ff) r2)
  have e3 : (new key).r[3].toNat = _ &&& 0x3f03fff :=
    (toNat_and_narrow (m := 0x3f03fff) (by decide)).trans (congrArg (· &&& 0x3f03fff) r3)
  have e4 : (new key).r[4].toNat = (leWord key.toList 12).toNat / 2 ^ 8 &&& 0xfffff :=
    (UInt32.toNat_and _ _).trans (congrArg (· &&& 0xfffff) r4)
  have number : leNumber (key.toList.take 16) = (leWord key.toList 0).toNat % 2 ^ 26 + 2 ^ 26 *
      ((leWord key.toList 0).toNat / 2 ^ 26 + (leWord key.toList 4).toNat % 2 ^ 20 * 2 ^ 6 +
        2 ^ 26 * ((leWord key.toList 4).toNat / 2 ^ 20 +
          (leWord key.toList 8).toNat % 2 ^ 14 * 2 ^ 12 + 2 ^ 26 *
            ((leWord key.toList 8).toNat / 2 ^ 14 +
              (leWord key.toList 12).toNat % 2 ^ 8 * 2 ^ 18 +
                2 ^ 26 * ((leWord key.toList 12).toNat / 2 ^ 8)))) := by
    have sixteen := words_eq (m := key.toList) (by rw [length_key]; decide)
    rw [← sixteen, words]
    omega
  refine ⟨⟨?_, ?_, ?_, ?_, ?_⟩, ?_⟩
  · rw [e0]
    exact Nat.mod_lt _ (by decide)
  · rw [e1]
    exact Nat.lt_of_le_of_lt Nat.and_le_right (by decide)
  · rw [e2]
    exact Nat.lt_of_le_of_lt Nat.and_le_right (by decide)
  · rw [e3]
    exact Nat.lt_of_le_of_lt Nat.and_le_right (by decide)
  · rw [e4]
    exact Nat.lt_of_le_of_lt Nat.and_le_right (by decide)
  · rw [point, number, clamp_limbs _ (by omega) (by omega) (by omega) (by omega), value, e0, e1, e2,
      e3, e4]
    generalize (_ : Nat) &&& 0x3ffff03 = l1
    generalize (_ : Nat) &&& 0x3ffc0ff = l2
    generalize (_ : Nat) &&& 0x3f03fff = l3
    omega

theorem new_pad (key : Vector UInt8 32) : padNumber (new key).pad = blind key := by
  have number := leNumber_take_sixteen (l := key.toList) 16 (by rw [length_key])
  have rest : (key.toList.drop 16).length = 16 := by
    rw [List.length_drop, length_key]
  rw [List.take_of_length_le (by omega)] at number
  exact number.symm

/-! ## Whole blocks -/

theorem byte_take (l : List UInt8) {i k : Nat} (inside : i < k) : byte (l.take k) i = byte l i := by
  simp [byte, List.getD_eq_getElem?_getD, List.getElem?_take_of_lt inside]

theorem leWord_take (l : List UInt8) {i k : Nat} (inside : i + 4 ≤ k) :
    leWord (l.take k) i = leWord l i := by
  rw [leWord, byte_take l (by omega), byte_take l (by omega), byte_take l (by omega),
    byte_take l (by omega), leWord]

/-- A block is its first sixteen bytes. -/
theorem block_take (r : Vector UInt32 5) (hibit : UInt32) (h : Vector UInt32 5) (m : List UInt8) :
    block r hibit h (m.take 16) = block r hibit h m := by
  have t0 := leWord_take m (i := 0) (k := 16) (by decide)
  have t1 := leWord_take m (i := 4) (k := 16) (by decide)
  have t2 := leWord_take m (i := 8) (k := 16) (by decide)
  have t3 := leWord_take m (i := 12) (k := 16) (by decide)
  have same : addBlock hibit h (m.take 16) = addBlock hibit h m := by
    simp only [addBlock, t0, t1, t2, t3]
  rw [block_eq, block_eq, same]

section Blocks

variable {r : Vector UInt32 5}

theorem blocks_eq_fold (hibit : UInt32) (n : Nat) (h : Vector UInt32 5) (m : List UInt8) :
    blocks r hibit n h m = Streams.fold 16 (block r hibit) n h m := by
  induction n generalizing h m with
  | zero => rfl
  | succ n ih => rw [blocks, Streams.fold, ih, block_take]

theorem blocks_spec (clamped : Clamped r) (n : Nat) {h : Vector UInt32 5} (m : List UInt8)
    (bounded : Bounded h) :
    CheckedPoly1305.blocks r 0x1000000 n h m = .ok (blocks r 0x1000000 n h m) ∧
      Bounded (blocks r 0x1000000 n h m) := by
  induction n generalizing h m with
  | zero => exact ⟨rfl, bounded⟩
  | succ n ih =>
    obtain ⟨runs, bounded', -⟩ := block_spec m clamped bounded (.inr rfl)
    rw [CheckedPoly1305.blocks, Checked.bind_of_ok runs, blocks]
    exact ih _ bounded'

theorem blockNumber_drop (message : List UInt8) (i : Nat) :
    blockNumber (message.drop 16) i = blockNumber message (i + 1) := by
  rw [blockNumber, blockNumber, List.drop_drop, Nat.mul_succ, Nat.add_comm 16]

theorem blockNumber_zero {message : List UInt8} (whole : 16 ≤ message.length) :
    blockNumber message 0 = words message + 2 ^ 104 * UInt32.toNat 0x1000000 := by
  have sixteen : (message.take 16).length = 16 := by
    rw [List.length_take]
    omega
  rw [blockNumber, Nat.mul_zero, List.drop_zero, leNumber_append, sixteen, words_eq whole]
  rfl

/-- **The blocks are the leading coefficients**: each is added and all are multiplied. -/
theorem value_blocks (clamped : Clamped r) (n : Nat) {h : Vector UInt32 5} {m : List UInt8}
    (bounded : Bounded h) (whole : 16 * n ≤ m.length) :
    value (blocks r 0x1000000 n h m) ≡ value h * value r ^ n +
      ∑ i ∈ Finset.range n, blockNumber m i * value r ^ (n - i) [MOD prime] := by
  induction n generalizing h m with
  | zero =>
    rw [blocks, pow_zero, mul_one, Finset.sum_range_zero, Nat.add_zero]
  | succ n ih =>
    obtain ⟨-, bounded', product⟩ := block_spec m clamped bounded (.inr rfl)
    have rest := ih (m := m.drop 16) bounded' (by
      rw [List.length_drop]
      omega)
    have later : ∀ i ∈ Finset.range n, blockNumber (m.drop 16) i * value r ^ (n - i) =
        blockNumber m (i + 1) * value r ^ (n + 1 - (i + 1)) := by
      intro i _
      rw [blockNumber_drop, Nat.add_sub_add_right]
    have regroup : value h * value r ^ (n + 1) + ∑ i ∈ Finset.range (n + 1),
        blockNumber m i * value r ^ (n + 1 - i) =
        (value h + words m + 2 ^ 104 * UInt32.toNat 0x1000000) * value r * value r ^ n +
          ∑ i ∈ Finset.range n, blockNumber m (i + 1) * value r ^ (n + 1 - (i + 1)) := by
      rw [Finset.sum_range_succ', blockNumber_zero (by omega), Nat.sub_zero, pow_succ]
      ring
    rw [blocks, regroup]
    rw [Finset.sum_congr rfl later] at rest
    exact rest.trans ((product.mul_right _).add_right _)

end Blocks

/-! ## Pieces of the message -/

/-- The state between two pieces. -/
structure Sound (state : Poly1305) : Prop where
  clamped : Clamped state.r
  bounded : Bounded state.h

theorem new_sound (key : Vector UInt8 32) : Sound (new key) := ⟨(new_clamped key).1, bounded_zero⟩

theorem absorb_spec {self : Poly1305} {h : Vector UInt32 5} (data : List UInt8)
    (clamped : Clamped self.r) (bounded : Bounded h) :
    CheckedPoly1305.absorb self h data = .ok (self.absorb h data) ∧ Sound (self.absorb h data) := by
  obtain ⟨runs, bounded'⟩ := blocks_spec clamped (data.length / 16) data bounded
  refine ⟨?_, clamped, bounded'⟩
  rw [CheckedPoly1305.absorb, Checked.bind_of_ok runs]
  rfl

theorem update_spec {self : Poly1305} (data : List UInt8) (sound : Sound self) :
    CheckedPoly1305.update self data = .ok (self.update data) ∧ Sound (self.update data) := by
  rw [CheckedPoly1305.update, update]
  split
  · exact absorb_spec data sound.clamped sound.bounded
  · dsimp only
    split
    · exact ⟨rfl, sound.clamped, sound.bounded⟩
    · obtain ⟨runs, bounded, -⟩ := block_spec (self.buf ++
        data.take (min (16 - self.buf.length) data.length)) sound.clamped sound.bounded (.inr rfl)
      rw [Checked.bind_of_ok runs]
      exact absorb_spec _ sound.clamped bounded

theorem update_r (self : Poly1305) (data : List UInt8) : (self.update data).r = self.r := by
  rw [update]
  split
  · rfl
  · dsimp only
    split <;> rfl

theorem update_pad (self : Poly1305) (data : List UInt8) : (self.update data).pad = self.pad := by
  rw [update]
  split
  · rfl
  · dsimp only
    split <;> rfl

/-- The accumulator and the pending bytes. -/
def held (self : Poly1305) : Vector UInt32 5 × List UInt8 := (self.h, self.buf)

theorem held_absorb (self : Poly1305) (h : Vector UInt32 5) (data : List UInt8) :
    held (self.absorb h data) = Streams.absorb 16 (block self.r 0x1000000) h data := by
  rw [held, absorb, Streams.absorb, ← blocks_eq_fold]

theorem held_update (self : Poly1305) (data : List UInt8) :
    held (self.update data) = Streams.feed 16 (block self.r 0x1000000) (held self) data := by
  by_cases empty : self.buf = []
  · have none : (held self).2 = [] := empty
    rw [update, if_pos empty, Streams.feed, if_pos none]
    exact held_absorb self self.h data
  · have some : (held self).2 ≠ [] := empty
    rw [update, if_neg empty, Streams.feed, if_neg some]
    dsimp only [held]
    split
    · rfl
    · exact held_absorb self _ _

/-- The pieces one after the other. -/
theorem updates_spec {self : Poly1305} (pieces : List (List UInt8)) (sound : Sound self) :
    pieces.foldlM CheckedPoly1305.update self = .ok (pieces.foldl update self) ∧
      Sound (pieces.foldl update self) ∧ (pieces.foldl update self).r = self.r ∧
      (pieces.foldl update self).pad = self.pad ∧
      held (pieces.foldl update self) =
        pieces.foldl (Streams.feed 16 (block self.r 0x1000000)) (held self) := by
  induction pieces generalizing self with
  | nil => exact ⟨rfl, sound, rfl, rfl, rfl⟩
  | cons piece pieces ih =>
    obtain ⟨runs, sound'⟩ := update_spec piece sound
    obtain ⟨rest, kept, r, pad, all⟩ := ih sound'
    rw [List.foldlM_cons, Checked.bind_of_ok runs, List.foldl_cons]
    refine ⟨rest, kept, r.trans (update_r self piece), pad.trans (update_pad self piece), ?_⟩
    rw [all, update_r, held_update, List.foldl_cons]

/-! ## The end of the message -/

/-- The accumulator with what is left of the message, as a last block of its own size. -/
def closed (self : Poly1305) : Vector UInt32 5 :=
  if self.buf = [] then self.h
  else block self.r 0 self.h (self.buf ++ 1 :: List.replicate (15 - self.buf.length) 0)

theorem closed_spec {self : Poly1305} (sound : Sound self) :
    CheckedPoly1305.closed self = .ok (closed self) ∧ Bounded (closed self) := by
  rw [CheckedPoly1305.closed, closed]
  split
  · exact ⟨rfl, sound.bounded⟩
  · obtain ⟨runs, bounded, -⟩ := block_spec (self.buf ++ 1 ::
      List.replicate (15 - self.buf.length) 0) sound.clamped sound.bounded (.inl rfl)
    exact ⟨runs, bounded⟩

theorem finalize_eq (self : Poly1305) : self.finalize =
    addPad (CheckedPoly1305.freeze (settle (closed self))) self.pad := rfl

/-- The number of the last block is that of its bytes and a one: the zeroes say nothing. -/
theorem words_last {rest : List UInt8} (short : rest.length < 16) :
    words (rest ++ 1 :: List.replicate (15 - rest.length) 0) = leNumber (rest ++ [1]) := by
  have size : (rest ++ 1 :: List.replicate (15 - rest.length) 0).length = 16 := by
    rw [List.length_append, List.length_cons, List.length_replicate]
    omega
  rw [words_eq (Nat.le_of_eq size.symm), List.take_of_length_le (Nat.le_of_eq size),
    ← List.singleton_append, ← List.append_assoc, leNumber_append,
    leNumber_replicate_zero, Nat.mul_zero, Nat.add_zero]

/-- **The accumulator at the end** is congruent to the polynomial of the message. -/
theorem value_closed {self : Poly1305} (sound : Sound self) {message : List UInt8}
    (absorbed : held self = Streams.absorb 16 (block self.r 0x1000000)
      (Vector.replicate 5 0) message) :
    value (closed self) ≡ polynomial message (value self.r) [MOD prime] := by
  have whole : 16 * (message.length / 16) ≤ message.length := Nat.mul_div_le _ _
  have front := value_blocks sound.clamped (message.length / 16) bounded_zero whole
  rw [value_zero, Nat.zero_mul, Nat.zero_add, blocks_eq_fold] at front
  have accumulator : self.h = Streams.fold 16 (block self.r 0x1000000) (message.length / 16)
      (Vector.replicate 5 0) message := congrArg Prod.fst absorbed
  have rest : self.buf = message.drop (16 * (message.length / 16)) := congrArg Prod.snd absorbed
  rw [← accumulator] at front
  have left : self.buf.length = message.length - 16 * (message.length / 16) := by
    rw [rest, List.length_drop]
  by_cases empty : self.buf = []
  · rw [empty, List.length_nil] at left
    have count : blockCount message = message.length / 16 := by
      rw [blockCount]
      omega
    rw [closed, if_pos empty, polynomial, count]
    exact front
  · have positive := List.length_pos_iff.mpr empty
    have count : blockCount message = message.length / 16 + 1 := by
      rw [blockCount]
      omega
    obtain ⟨-, -, product⟩ := block_spec (self.buf ++ 1 ::
      List.replicate (15 - self.buf.length) 0) sound.clamped sound.bounded (.inl rfl)
    have last : blockNumber message (message.length / 16) = leNumber (self.buf ++ [1]) := by
      have short := self.room
      rw [blockNumber, ← rest, List.take_of_length_le (by omega)]
    have shifted : polynomial message (value self.r) =
        (∑ i ∈ Finset.range (message.length / 16),
          blockNumber message i * value self.r ^ (message.length / 16 - i) +
            leNumber (self.buf ++ [1])) * value self.r := by
      have later : ∀ i ∈ Finset.range (message.length / 16), blockNumber message i *
          value self.r ^ (message.length / 16 + 1 - i) = blockNumber message i *
            value self.r ^ (message.length / 16 - i) * value self.r := by
        intro i member
        rw [Nat.succ_sub (Nat.le_of_lt (Finset.mem_range.mp member)), pow_succ, mul_assoc]
      rw [polynomial, count, Finset.sum_range_succ, Finset.sum_congr rfl later, ← Finset.sum_mul,
        Nat.add_sub_cancel_left, pow_one, last, Nat.add_mul]
    rw [words_last self.room, UInt32.toNat_zero, Nat.mul_zero, Nat.add_zero] at product
    rw [closed, if_neg empty, shifted]
    exact product.trans ((front.add_right _).mul_right _)

end RustyPenguin.Crypto.Poly1305

namespace RustyPenguin.Crypto.CheckedPoly1305

open Poly1305 (value prime)

/-- The tag of a message that is handed over in pieces. -/
def authenticate (key : Vector UInt8 32) (pieces : List (List UInt8)) :
    Checked (Vector UInt8 16) := do
  let state ← pieces.foldlM update (Poly1305.new key)
  finalize state

/-- **The tag is the polynomial of the message at the clamped key, reduced below the prime, plus
the rest of the key**, for every key and every message in any pieces; no word overflows on the
way. -/
theorem authenticate_spec (key : Vector UInt8 32) (pieces : List (List UInt8)) :
    ∃ h tag,
      (pieces.foldlM update (Poly1305.new key) >>= reduced) = .ok h ∧
      value h < 2 ^ 130 - 5 ∧
      value h = Poly1305.polynomial pieces.flatten (Poly1305.point key) % (2 ^ 130 - 5) ∧
      authenticate key pieces = .ok tag ∧
      (pieces.foldl Poly1305.update (Poly1305.new key)).finalize = tag ∧
      leNumber tag.toList =
        (Poly1305.polynomial pieces.flatten (Poly1305.point key) % (2 ^ 130 - 5) +
          Poly1305.blind key) % 2 ^ 128 := by
  obtain ⟨runs, sound, r, pad, all⟩ := Poly1305.updates_spec pieces (Poly1305.new_sound key)
  have absorbed := all.trans (Streams.foldl_feed 16 _ (by decide) _ pieces)
  generalize pieces.foldl Poly1305.update (Poly1305.new key) = state at *
  rw [← r] at absorbed
  have number := Poly1305.value_closed sound absorbed
  rw [r, (Poly1305.new_clamped key).2] at number
  obtain ⟨closes, bounded⟩ := Poly1305.closed_spec sound
  obtain ⟨settles, settled, same⟩ := Poly1305.settle_spec bounded
  obtain ⟨frozen, least⟩ := Poly1305.freeze_spec settled
  obtain ⟨adds, tag⟩ := Poly1305.addPad_spec frozen state.pad
  have reduces : reduced state = .ok (freeze (Poly1305.settle (Poly1305.closed state))) := by
    rw [reduced, Checked.bind_of_ok closes, Checked.bind_of_ok settles]
    rfl
  have residue : value (freeze (Poly1305.settle (Poly1305.closed state))) =
      Poly1305.polynomial pieces.flatten (Poly1305.point key) % (2 ^ 130 - 5) :=
    least.trans (same.symm.trans number)
  refine ⟨_, _, ?_, ?_, residue, ?_, Poly1305.finalize_eq state, ?_⟩
  · rw [Checked.bind_of_ok runs, reduces]
  · rw [residue]
    exact Nat.mod_lt _ (by decide)
  · rw [authenticate, Checked.bind_of_ok runs, finalize, Checked.bind_of_ok reduces, adds]
  · rw [tag, residue, pad, Poly1305.new_pad]

end RustyPenguin.Crypto.CheckedPoly1305
