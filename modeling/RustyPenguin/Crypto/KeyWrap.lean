import Mathlib.Data.Fintype.Pi
import RustyPenguin.Crypto.Aes

/-!
# The key wrap backwards

Decryption inverts encryption, so encryption is injective; there are finitely many blocks,
so it is onto, and encryption inverts decryption as well. From this each step of the key
wrap inverts the step of the unwrap it answers, and a wrapped string whose integrity check
passes is the wrap of what it unwraps to (`keyWrap_of_keyUnwrap`): nothing outside the image
of the wrap is accepted.
-/

set_option autoImplicit false

namespace RustyPenguin.Crypto

open Positions

instance : Finite Block :=
  Finite.of_injective
    (fun (s : Block) (i : Fin 16) =>
      (⟨(getElem s i (fin16 i)).toNat, (getElem s i (fin16 i)).toNat_lt⟩ : Fin 256))
    (by
      intro s s' same
      refine Vector.ext fun i inside => ?_
      have byteEq := congrFun same ⟨i, inside⟩
      exact UInt8.toNat_inj.mp (congrArg Fin.val byteEq))

namespace Aes128

theorem encryptBlock_injective (aes : Aes128) : Function.Injective aes.encryptBlock :=
  Function.LeftInverse.injective aes.decryptBlock_encryptBlock

/-- Encryption inverts decryption, for every key and block. -/
theorem encryptBlock_decryptBlock (aes : Aes128) (block : Block) :
    aes.encryptBlock (aes.decryptBlock block) = block := by
  obtain ⟨plain, rfl⟩ := Finite.surjective_of_injective aes.encryptBlock_injective block
  rw [aes.decryptBlock_encryptBlock]

end Aes128

variable {n : Nat}

theorem wrapStep_unwrapStep (aes : Aes128) (s : Half × Vector Half n) (step : Fin 6 × Fin n) :
    wrapStep aes (unwrapStep aes s step) step = s := by
  obtain ⟨a, r⟩ := s
  simp [unwrapStep, wrapStep, xorHalf_xorHalf, join_halves, Aes128.encryptBlock_decryptBlock,
    highHalf_join, lowHalf_join]

/-- A byte string of `n + 1` half blocks is its first half block and the others. -/
theorem toList_append_flatten_halves {wrapped : List UInt8} (whole : wrapped.length = 8 * (n + 1)) :
    (arrayAt 8 wrapped 0).toList ++ flatten (halves n wrapped 8) = wrapped := by
  refine ext_byte ?_ fun j inside => ?_
  · rw [List.length_append, length_flatten, Vector.length_toList]
    omega
  rw [List.length_append, length_flatten, Vector.length_toList] at inside
  have size : (arrayAt 8 wrapped 0).toList.length = 8 := Vector.length_toList
  by_cases first : j < 8
  · rw [byte_append_left _ (by omega), byte_toList _ first]
    simp only [arrayAt, Vector.getElem_ofFn, Nat.zero_add]
  · have place : j = (arrayAt 8 wrapped 0).toList.length + (8 * ((j - 8) / 8) + (j - 8) % 8) := by
      omega
    rw [place, byte_append_right, byte_flatten _ (by omega) (Nat.mod_lt _ (by decide)), size]
    simp only [halves, arrayAt, Vector.getElem_ofFn, Nat.add_assoc]

theorem wrapBlocks_of_unwrapBlocks {kek : Block} {wrapped plain : List UInt8}
    (whole : wrapped.length = 8 * (n + 1)) (unwraps : unwrapBlocks kek n wrapped = some plain) :
    plain.length = 8 * n ∧ wrapBlocks kek n plain = wrapped := by
  have redo := foldl_reverse_cancel (wrapStep_unwrapStep (n := n) (Aes128.new kek))
    (wrapSteps n).reverse (arrayAt 8 wrapped 0, halves n wrapped 8)
  rw [List.reverse_reverse] at redo
  rw [unwrapBlocks] at unwraps
  generalize (wrapSteps n).reverse.foldl (unwrapStep (Aes128.new kek))
    (arrayAt 8 wrapped 0, halves n wrapped 8) = s at redo unwraps
  obtain ⟨register, blocks⟩ := s
  dsimp only at unwraps
  split at unwraps
  · rename_i passes
    cases unwraps
    refine ⟨length_flatten blocks, ?_⟩
    have start : (defaultIv, halves n (flatten blocks) 0) = (register, blocks) :=
      Prod.ext passes.symm (halves_flatten [] blocks)
    rw [wrapBlocks, start, redo]
    exact toList_append_flatten_halves whole
  · cases unwraps

/-- **Wrapping inverts unwrapping**: a wrapped string that unwraps is the wrap of its
plaintext, which is eight bytes shorter. -/
theorem keyWrap_of_keyUnwrap {kek : Block} {wrapped plain : List UInt8} {room room' : Nat}
    (unwraps : keyUnwrap kek wrapped room = some plain) (fits : wrapped.length ≤ room') :
    keyWrap kek plain room' = some wrapped ∧ wrapped.length = plain.length + 8 := by
  rw [keyUnwrap] at unwraps
  split at unwraps
  · cases unwraps
  split at unwraps
  · cases unwraps
  rename_i shape small
  have whole : wrapped.length = 8 * (wrapped.length / 8 - 1 + 1) := by omega
  obtain ⟨size, wraps⟩ := wrapBlocks_of_unwrapBlocks whole unwraps
  have blocks : plain.length / 8 = wrapped.length / 8 - 1 := by
    rw [size]
    omega
  have nonempty : plain ≠ [] := by
    rintro rfl
    rw [List.length_nil] at size
    omega
  refine ⟨?_, by omega⟩
  rw [keyWrap, blocks, if_neg (by rintro (empty | ragged) <;> [exact nonempty empty; omega]),
    if_neg (by omega), wraps]

/-- **The cipher and the key wrap are inverted**: decryption gives back what was encrypted,
under every key; a plaintext of one to 32 half blocks wraps, and its wrap unwraps to it; and
what unwraps to a plaintext is the wrap of that plaintext. -/
theorem cipher_and_wrap_inverted :
    (∀ key block : Block,
      (Aes128.new key).decryptBlock ((Aes128.new key).encryptBlock block) = block) ∧
    (∀ (kek : Block) (plain : List UInt8) (n room room' : Nat), plain.length = 8 * n → 0 < n →
      n ≤ 32 → plain.length + 8 ≤ room → plain.length ≤ room' →
        ∃ wrapped, keyWrap kek plain room = some wrapped ∧
          keyUnwrap kek wrapped room' = some plain) ∧
    (∀ (kek : Block) (wrapped plain : List UInt8) (room room' : Nat),
      keyUnwrap kek wrapped room = some plain → wrapped.length ≤ room' →
        keyWrap kek plain room' = some wrapped) := by
  refine ⟨fun key => (Aes128.new key).decryptBlock_encryptBlock, ?_, ?_⟩
  · intro kek plain n room room' whole positive most fits fits'
    have wraps : keyWrap kek plain room = some (wrapBlocks kek (plain.length / 8) plain) := by
      have nonempty : plain ≠ [] := by
        rintro rfl
        rw [List.length_nil] at whole
        omega
      rw [keyWrap, if_neg (by rintro (empty | ragged) <;> [exact nonempty empty; omega]),
        if_neg (by omega)]
    exact ⟨_, wraps, (keyUnwrap_of_keyWrap wraps fits').1⟩
  · intro kek wrapped plain room room' unwraps fits
    exact (keyWrap_of_keyUnwrap unwraps fits).1

end RustyPenguin.Crypto
