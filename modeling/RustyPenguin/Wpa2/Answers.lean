import RustyPenguin.Wpa2.GroupKey

/-!
# The supplicant's answers

Messages 2 and 4 are written over a zeroed buffer, field by field. Two of the fields overlap:
the bytes meant for the key length of the answer are those of its key information's low byte
and of the key length's first. What stands in the key information at the end is the high
byte that the supplicant computed and the low byte of the message answered
(`mirrorInfo_low`, `mirrorInfo_high`), so the descriptor version and the key type are kept
and the flags that the supplicant sets are set.

`answers_wellFormed` puts together what the receiver of an answer finds in it.
-/

set_option autoImplicit false

namespace RustyPenguin.Wpa2

open Checked Crypto

/-! ## The key information of an answer -/

theorem or_and (a b c : UInt16) : (a ||| b) &&& c = (a &&& c) ||| (b &&& c) :=
  UInt16.toBitVec_inj.mp BitVec.and_or_distrib_right

theorem be16_low (a b : UInt8) :
    (a.toUInt16 <<< 8 ||| b.toUInt16) &&& 0x00ff = b.toUInt16 := by
  refine UInt16.toNat_inj.mp ?_
  have bound := b.toNat_lt
  have low : b.toNat < 2 ^ 8 := bound
  have word := Nat.shiftLeft_add_eq_or_of_lt low a.toNat
  have mask : ∀ x : Nat, x &&& 255 = x % 256 := fun x => Nat.and_two_pow_sub_one_eq_mod x 8
  have high := a.toNat_lt
  simp [Nat.shiftLeft_eq] at word ⊢
  rw [Nat.mod_eq_of_lt (by omega : a.toNat * 256 < 65536), ← word, mask]
  omega

/-- The low byte of the key information is that of the message answered. -/
theorem mirrorInfo_low (m : List UInt8) (ki : UInt16) :
    mirrorInfo m ki &&& 0x00ff = be16 m offKeyinfo &&& 0x00ff := by
  have below : (byte m (offHeader + 2)).toUInt16 &&& 0x00ff =
      (byte m (offHeader + 2)).toUInt16 := by
    have own := be16_low 0 (byte m (offHeader + 2))
    simpa using own
  have disjoint : ki &&& 0xff00 &&& 0x00ff = 0 := by
    rw [UInt16.and_assoc]
    exact UInt16.and_zero
  rw [mirrorInfo, or_and, disjoint, UInt16.zero_or, below, be16, be16_low]
  rfl

/-- The high byte of the key information is the one the supplicant computed. -/
theorem mirrorInfo_high (m : List UInt8) (ki : UInt16) :
    mirrorInfo m ki &&& 0xff00 = ki &&& 0xff00 := by
  have above : (byte m (offHeader + 2)).toUInt16 &&& 0xff00 = 0 := by
    have own := be16_low 0 (byte m (offHeader + 2))
    have zero : (0x00ff : UInt16) &&& 0xff00 = 0 := by decide
    have masked := congrArg (· &&& (0xff00 : UInt16)) own
    simp only [UInt16.and_assoc, zero, UInt16.and_zero] at masked
    exact masked.symm
  rw [mirrorInfo, or_and, above, UInt16.or_zero, UInt16.and_assoc]
  rfl

theorem and_of_and_low {x y : UInt16} (same : x &&& 0x00ff = y &&& 0x00ff) {mask : UInt16}
    (inside : mask &&& 0x00ff = mask) : x &&& mask = y &&& mask := by
  rw [← inside, UInt16.and_comm mask, ← UInt16.and_assoc, same, UInt16.and_assoc]

theorem and_of_and_high {x y : UInt16} (same : x &&& 0xff00 = y &&& 0xff00) {mask : UInt16}
    (inside : mask &&& 0xff00 = mask) : x &&& mask = y &&& mask := by
  rw [← inside, UInt16.and_comm mask, ← UInt16.and_assoc, same, UInt16.and_assoc]

/-! ## What a receiver finds in an answer -/

/-- The mask of the descriptor version and of the bit that says the key is a pairwise one. -/
def kiVersionAndType : UInt16 := 0x000f

/-- `answer` is a well-formed answer to `m`: an EAPOL-Key frame whose lengths are those of its
bytes, with the version, key type and replay counter of the message answered, the flags that
the supplicant sets, and an integrity code that verifies under `key`. -/
structure IsAnswer (m answer key : List UInt8) (flags : UInt16) : Prop where
  packet : answer.take 2 = [2, 3]
  descriptor : byte answer offHeader = byte m offHeader
  bodyLength : (be16 answer 2).toNat + offHeader = answer.length
  dataLength : (be16 answer offKdlen).toNat + frameFixed = answer.length
  kept : be16 answer offKeyinfo &&& kiVersionAndType = be16 m offKeyinfo &&& kiVersionAndType
  marked : be16 answer offKeyinfo &&& flags = flags
  replay : arrayAt 8 answer offReplay = arrayAt 8 m offReplay
  verifies : micValid key answer = true

/-- The length of the body, as a receiver reads it. -/
theorem bodyLength_encode (f : KeyFrame) (mic : Vector UInt8 16) :
    be16 (encode f mic) 2 = UInt16.ofNat (frameFixed + f.data.length - offHeader) :=
  be16_of_split [2, 3] (by simp only [encode, header, List.append_assoc]; rfl) rfl

/-- A signed frame that mirrors a message answers it. -/
theorem isAnswer_signed {m key : List UInt8} {flags ki : UInt16} {f : KeyFrame}
    (small : f.data.length ≤ 32) (descriptor : f.descriptor = byte m offHeader)
    (info : f.info = mirrorInfo m ki) (high : flags &&& 0xff00 = flags) (set : ki &&& flags = flags)
    (replay : f.replay = arrayAt 8 m offReplay) : IsAnswer m (signed key f) key flags where
  packet := rfl
  descriptor := descriptor
  bodyLength := by
    rw [signed, bodyLength_encode, length_encode, UInt16.toNat_ofNat', Nat.mod_eq_of_lt]
    · rw [frameFixed, offHeader]
      omega
    · rw [frameFixed, offHeader]
      omega
  dataLength := by
    rw [signed, kdlen_encode, length_encode, UInt16.toNat_ofNat', Nat.mod_eq_of_lt (by omega),
      Nat.add_comm]
  kept := by
    rw [signed, info_encode, info]
    exact and_of_and_low (mirrorInfo_low m ki) (by decide)
  marked := by
    rw [signed, info_encode, info, and_of_and_high (mirrorInfo_high m ki) high]
    exact set
  replay := by
    rw [signed, replay_encode]
    exact replay
  verifies := micValid_signed key f

theorem or_and_self (x flags : UInt16) : (x ||| flags) &&& flags = flags := by
  refine UInt16.toBitVec_inj.mp (BitVec.eq_of_getLsbD_eq fun i _ => ?_)
  simp only [UInt16.toBitVec_and, UInt16.toBitVec_or, BitVec.getLsbD_and, BitVec.getLsbD_or]
  cases x.toBitVec.getLsbD i <;> simp

/-- **Answers are well formed**: whatever message 1 the supplicant answers, its message 2
carries the supplicant's nonce and verifies under the pairwise key derived from that message;
whatever message 3 it accepts, its message 4 has no key data, is marked secure and verifies
under the pairwise key it returns. -/
theorem answers_wellFormed (S : Supplicant) (room : Nat) :
    (∀ m1 S' m2, S.onMessage1 m1 room = .ok (S', m2) → m2 ≠ [] →
      pairwiseKey S.pmk S.aa S.spa (arrayAt 32 m1 offNonce) S.snonce = .ok S'.ptk ∧
        m2.length ≤ room ∧ arrayAt 32 m2 offNonce = S.snonce ∧
          IsAnswer m1 m2 (kck S'.ptk) kiKeyMic) ∧
    (∀ m3 m4 keys, S.onMessage3 m3 room = .ok (m4, keys) →
      keys.ptk = S.ptk ∧ m4.length ≤ room ∧ m4.length = frameFixed ∧
        IsAnswer m3 m4 (kck keys.ptk) (kiKeyMic ||| kiSecure)) := by
  constructor
  · intro m1 S' m2 returns answered
    rw [Supplicant.onMessage1] at returns
    split at returns
    · obtain ⟨_, rfl⟩ := Prod.ext_iff.mp (Except.ok.inj returns)
      exact absurd rfl answered
    obtain ⟨T, derives, returns⟩ := bind_eq_ok.mp returns
    obtain ⟨key, derived, next⟩ := bind_eq_ok.mp derives
    obtain rfl := Except.ok.inj next
    dsimp only at returns
    split at returns
    · obtain ⟨_, rfl⟩ := Prod.ext_iff.mp (Except.ok.inj returns)
      exact absurd rfl answered
    rename_i long fits
    obtain ⟨rfl, rfl⟩ := Prod.ext_iff.mp (Except.ok.inj returns)
    have size : (S.rsnIe.toList.take (min S.rsnIeLen (room - frameFixed))).length ≤
        min S.rsnIeLen (room - frameFixed) := by
      rw [List.length_take]
      exact Nat.min_le_left _ _
    refine ⟨derived, ?_, nonce_encode _ _, isAnswer_signed ?_ rfl rfl (by decide) ?_ rfl⟩
    · rw [signed, length_encode]
      exact Nat.le_trans (Nat.add_le_add_left size _) (Nat.not_lt.mp fits)
    · exact Nat.le_trans size (Nat.le_trans (Nat.min_le_left _ _) S.rsnIe_fits)
    · exact or_and_self _ _
  · intro m3 m4 keys returns
    by_cases early : S.RefusesEarly m3
    · rw [Supplicant.onMessage3_of_early early] at returns
      cases returns
    rw [Supplicant.onMessage3_of_not_early early] at returns
    obtain ⟨gtk?, _, returns⟩ := bind_eq_ok.mp returns
    split at returns
    · cases returns
    rename_i fits
    obtain ⟨rfl, rfl⟩ := Prod.ext_iff.mp (Except.ok.inj returns)
    have size : (signed (kck S.ptk) (Supplicant.message4 m3)).length = frameFixed :=
      length_encode _ _
    refine ⟨S.ptk_keysOf gtk?, size ▸ Nat.not_lt.mp fits, size, ?_⟩
    dsimp only
    rw [S.ptk_keysOf]
    refine isAnswer_signed (Nat.zero_le _) rfl rfl (by decide) ?_ rfl
    rw [UInt16.or_assoc]
    exact or_and_self _ _

end RustyPenguin.Wpa2
