import RustyPenguin.Tls.Record

/-!
# What a protected record gives back

A record that was sealed announces its length and opens to the type and the content it was sealed
with, whatever the content ends in: the type byte is not zero and stands behind it. A record opens
only if its last sixteen bytes are the tag of its header and of the bytes before them, under the
same key and number; otherwise nothing is decrypted.
-/

set_option autoImplicit false

namespace RustyPenguin.Tls

open Crypto

/-! ## Comparing tags -/

theorem foldl_or_eq_zero {n : Nat} (f : Fin n → UInt8) (indices : List (Fin n)) (diff : UInt8) :
    indices.foldl (fun diff i => diff ||| f i) diff = 0 ↔ diff = 0 ∧ ∀ i ∈ indices, f i = 0 := by
  induction indices generalizing diff with
  | nil => simp
  | cons i indices ih =>
    rw [List.foldl_cons, ih, UInt8.or_eq_zero_iff, List.forall_mem_cons, and_assoc]

/-- The comparison finds no difference only between equal tags. -/
theorem tagDiff_eq_zero {expect tag : Vector UInt8 16} : tagDiff expect tag = 0 ↔ expect = tag := by
  rw [tagDiff, foldl_or_eq_zero]
  constructor
  · rintro ⟨-, none⟩
    refine Vector.ext fun i inside => ?_
    exact UInt8.xor_eq_zero_iff.mp (none ⟨i, inside⟩ (List.mem_finRange _))
  · rintro rfl
    exact ⟨rfl, fun _ _ => UInt8.xor_self⟩

/-! ## The parts of a record -/

/-- The encrypted part of a record. -/
def Record.ciphertext (r : Record) : List UInt8 := r.body.take (r.body.length - 16)

/-- The tag that a record carries. -/
def Record.tag (r : Record) : Vector UInt8 16 := arrayAt 16 r.body (r.body.length - 16)

/-- The tag over the header and the encrypted part of a record. -/
def tagOver (keys : Keys) (seq : UInt64) (r : Record) : Vector UInt8 16 :=
  poly1305Tag (poly1305Key keys.key (makeNonce keys.iv seq)) r.hdr.toList r.ciphertext

theorem openRecord_short (keys : Keys) (seq : UInt64) {r : Record} (short : r.body.length < 16) :
    openRecord keys seq r = none := by
  rw [openRecord, if_pos short]

theorem openRecord_forged {keys : Keys} {seq : UInt64} {r : Record}
    (differs : tagOver keys seq r ≠ r.tag) : openRecord keys seq r = none := by
  rw [openRecord]
  split
  · rfl
  · have refused : aeadOpen keys.key (makeNonce keys.iv seq) r.hdr.toList r.ciphertext r.tag =
        none := by
      have found : tagDiff (tagOver keys seq r) r.tag ≠ 0 :=
        fun same => differs (tagDiff_eq_zero.1 same)
      exact if_pos found
    exact congrArg (·.bind stripPadding) refused

/-- **What is sealed opens as it was, and what does not carry its tag does not open.** -/
theorem protection_spec (keys : Keys) (seq : UInt64) :
    (∀ (content : List UInt8) (innerType : UInt8), innerType ≠ 0 →
      content.length + 1 + 16 < 2 ^ 16 →
        Record.announced (sealRecord keys seq content innerType).hdr =
          (sealRecord keys seq content innerType).body.length ∧
        openRecord keys seq (sealRecord keys seq content innerType) = some (innerType, content)) ∧
    ∀ r : Record, r.body.length < 16 ∨ tagOver keys seq r ≠ r.tag → openRecord keys seq r = none := by
  refine ⟨?_, ?_⟩
  · intro content innerType typed fits
    refine ⟨?_, openRecord_sealRecord keys seq content typed⟩
    have hdr : (sealRecord keys seq content innerType).hdr = sealedHeader (content.length + 17) := by
      simp [sealRecord]
    rw [length_sealRecord, hdr, announced_sealedHeader (by omega)]
  · rintro r (short | differs)
    · exact openRecord_short keys seq short
    · exact openRecord_forged differs

theorem protection_spec_zeroes :
    let keys : Keys := ⟨Vector.replicate 32 0, Vector.replicate 12 0⟩
    openRecord keys 0 (sealRecord keys 0 [1, 0, 0] 23) = some (23, [1, 0, 0]) ∧
      openRecord keys 0 ⟨Vector.replicate 5 0, []⟩ = none :=
  ⟨((protection_spec _ 0).1 [1, 0, 0] 23 (by decide) (by decide)).2,
    (protection_spec _ 0).2 _ (.inl (by decide))⟩

end RustyPenguin.Tls
