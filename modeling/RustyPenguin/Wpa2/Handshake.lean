import RustyPenguin.Wpa2.Supplicant

/-!
# The handshake with an honest authenticator

The access point's side of the handshake, as the self-test of the source plays it: it sends
its nonce in message 1, derives the pairwise key from the nonce it finds in message 2 and
checks the code of that message, wraps its group key for message 3 and checks the code of
message 4. It names the peers and the nonces in its own order, its own first.

Whatever the addresses, nonces, counters and group key, the two sides derive the same
pairwise key, each accepts the other's codes, and the supplicant ends with the
authenticator's group key (`handshake_agrees`).
-/

set_option autoImplicit false

namespace RustyPenguin.Wpa2

open Checked Crypto

/-- What the authenticator chooses: its nonce and group key, and the fields of its frames. -/
structure Authenticator where
  anonce : Vector UInt8 32
  gtk : List UInt8
  keyId : Vector UInt8 2
  descriptor : UInt8
  version : UInt16
  keyLength : Vector UInt8 2
  lifetime : Vector UInt8 32
  gtk_fits : gtk.length ≤ 32

/-- The element that carries a group key. -/
def gtkKde (keyId : Vector UInt8 2) (gtk : List UInt8) : List UInt8 :=
  [0xdd, UInt8.ofNat (6 + gtk.length), 0x00, 0x0f, 0xac, 0x01] ++ (keyId.toList ++ gtk)

/-- Pad to a multiple of eight bytes with `dd 00 …`. -/
def pad (data : List UInt8) : List UInt8 :=
  if data.length % 8 = 0 then data else data ++ 0xdd :: List.replicate (7 - data.length % 8) 0

namespace Authenticator

/-- Message 1 carries the nonce, and no code. -/
def message1 (A : Authenticator) (replay : Vector UInt8 8) : List UInt8 :=
  encode ⟨A.descriptor, A.version ||| kiAck, A.keyLength, replay, A.anonce, zeroes 32, []⟩
    (zeroes 16)

/-- The pairwise key of message 2, if the code verifies under it. -/
def onMessage2 (A : Authenticator) (pmk : Vector UInt8 32) (aa spa : Vector UInt8 6)
    (m2 : List UInt8) : Checked (Vector UInt8 48) := do
  let key ← pairwiseKey pmk spa aa (arrayAt 32 m2 offNonce) A.anonce
  if micValid (kck key) m2 then pure key else refuse

/-- Message 3 carries the wrapped group key. -/
def message3 (A : Authenticator) (key : Vector UInt8 48) (replay : Vector UInt8 8) :
    Option (List UInt8) := do
  let plain := pad (gtkKde A.keyId A.gtk)
  let wrapped ← keyWrap (kek key) plain (plain.length + 8)
  pure (signed (kck key) ⟨A.descriptor,
    A.version ||| (kiKeyMic ||| kiAck ||| kiInstall ||| kiSecure) ||| kiEncrypted, A.keyLength,
    replay, A.anonce, A.lifetime, wrapped⟩)

/-- The authenticator accepts message 4 when its code verifies. -/
def onMessage4 (key : Vector UInt8 48) (m4 : List UInt8) : Bool := micValid (kck key) m4

end Authenticator

/-! ## The group key in the key data -/

theorem length_gtkKde (keyId : Vector UInt8 2) (gtk : List UInt8) :
    (gtkKde keyId gtk).length = 8 + gtk.length := by
  simp [gtkKde]
  omega

theorem length_pad (data : List UInt8) :
    (pad data).length % 8 = 0 ∧ data.length ≤ (pad data).length ∧
      (pad data).length ≤ data.length + 7 := by
  rw [pad]
  split
  · omega
  · simp only [List.length_append, List.length_cons, List.length_replicate]
    omega

theorem pad_prefix (data : List UInt8) : ∃ rest, pad data = data ++ rest := by
  rw [pad]
  split
  · exact ⟨[], (List.append_nil data).symm⟩
  · exact ⟨_, rfl⟩

/-- The content of the element that carries a group key. -/
def gtkBody (keyId : Vector UInt8 2) (gtk : List UInt8) : List UInt8 :=
  [0x00, 0x0f, 0xac, 0x01] ++ (keyId.toList ++ gtk)

theorem length_gtkBody (keyId : Vector UInt8 2) (gtk : List UInt8) :
    (gtkBody keyId gtk).length = 6 + gtk.length := by
  simp [gtkBody]
  omega

theorem sub_gtkBody (keyId : Vector UInt8 2) (gtk : List UInt8) :
    sub (gtkBody keyId gtk) 6 (gtkBody keyId gtk).length = .ok gtk := by
  have size := length_gtkBody keyId gtk
  refine sub_eq_ok.mpr ⟨by omega, Nat.le_refl _, ?_⟩
  have split : gtkBody keyId gtk = ([0x00, 0x0f, 0xac, 0x01] ++ keyId.toList) ++ gtk := by
    simp only [gtkBody, List.append_assoc]
  have front : ([0x00, 0x0f, 0xac, 0x01] ++ keyId.toList).length = 6 := by simp
  have left : (gtkBody keyId gtk).length - 6 = gtk.length := by omega
  rw [left, split, List.drop_left' front, List.take_length]

/-- A group key that stands first in the key data is found. -/
theorem findGtkKde_first (keyId : Vector UInt8 2) {gtk : List UInt8} (fits : gtk.length ≤ 32)
    (rest : List UInt8) : findGtkKde (gtkKde keyId gtk ++ rest) = .ok (some gtk) := by
  have bodySize := length_gtkBody keyId gtk
  have size : (gtkKde keyId gtk ++ rest).length = 8 + gtk.length + rest.length := by
    rw [List.length_append, length_gtkKde]
  have len : (UInt8.ofNat (6 + gtk.length)).toNat = 6 + gtk.length := by
    rw [UInt8.toNat_ofNat', Nat.mod_eq_of_lt (by omega)]
  have body : sub (gtkKde keyId gtk ++ rest) 2 (8 + gtk.length) = .ok (gtkBody keyId gtk) := by
    refine sub_eq_ok.mpr ⟨by omega, by omega, ?_⟩
    have width : 8 + gtk.length - 2 = (gtkBody keyId gtk).length := by omega
    have cut : (gtkKde keyId gtk ++ rest).drop 2 = gtkBody keyId gtk ++ rest := rfl
    rw [width, cut, List.take_left]
  rw [findGtkKde, findGtkFrom]
  refine bind_eq_ok.mpr ⟨2, rfl, ?_⟩
  rw [if_pos (by omega)]
  refine bind_eq_ok.mpr ⟨0xdd, rfl, ?_⟩
  rw [if_neg (by decide)]
  refine bind_eq_ok.mpr ⟨UInt8.ofNat (6 + gtk.length), rfl, ?_⟩
  have after : addIn 64 2 (UInt8.ofNat (6 + gtk.length)).toNat = .ok (8 + gtk.length) := by
    rw [len, addIn, if_pos (by omega)]
    exact congrArg Except.ok (by omega)
  refine bind_eq_ok.mpr ⟨8 + gtk.length, after, ?_⟩
  rw [if_neg (by omega)]
  refine bind_eq_ok.mpr ⟨gtkBody keyId gtk, body, ?_⟩
  have oui : (gtkBody keyId gtk).take 4 = [0x00, 0x0f, 0xac, 0x01] := rfl
  rw [if_pos oui]
  refine bind_eq_ok.mpr ⟨gtk, sub_gtkBody keyId gtk, ?_⟩
  rw [Nat.min_eq_left fits, List.take_length]
  rfl

/-- The bits set last are set. -/
theorem or_and_self_ne_zero (x : UInt16) : (x ||| kiEncrypted) &&& kiEncrypted ≠ 0 := by
  have absorb : (x ||| kiEncrypted) &&& kiEncrypted = kiEncrypted := by
    refine UInt16.toBitVec_inj.mp (BitVec.eq_of_getLsbD_eq fun i _ => ?_)
    simp only [UInt16.toBitVec_and, UInt16.toBitVec_or, BitVec.getLsbD_and, BitVec.getLsbD_or]
    cases x.toBitVec.getLsbD i <;> simp
  rw [absorb]
  decide

/-! ## Both sides, message by message -/

section Messages

variable (S : Supplicant) (A : Authenticator)

/-- Message 1 gives the supplicant the pairwise key of the authenticator's nonce, and its
answer carries its own nonce under a code that verifies. -/
theorem onMessage1_message1 (rc : Vector UInt8 8) (room : Nat) :
    ∃ S' m2, S.onMessage1 (A.message1 rc) (frameFixed + room) = .ok (S', m2) ∧
      pairwiseKey S.pmk S.aa S.spa A.anonce S.snonce = .ok S'.ptk ∧
        S' = { S with ptk := S'.ptk, havePtk := true } ∧
          arrayAt 32 m2 offNonce = S.snonce ∧ micValid (kck S'.ptk) m2 = true := by
  obtain ⟨key, derived, _⟩ := exists_pairwiseKey S.pmk S.aa S.spa A.anonce S.snonce
  have nonce : arrayAt 32 (A.message1 rc) offNonce = A.anonce := nonce_encode _ _
  have long : ¬ (A.message1 rc).length < frameFixed := by
    rw [Authenticator.message1, length_encode]
    exact Nat.not_lt.mpr (Nat.le_add_right _ _)
  have derives : S.derivePtk (arrayAt 32 (A.message1 rc) offNonce) =
      .ok { S with ptk := key, havePtk := true } := by
    rw [nonce]
    exact bind_eq_ok.mpr ⟨key, derived, rfl⟩
  refine ⟨{ S with ptk := key, havePtk := true }, signed (kck key)
    (Supplicant.message2 { S with ptk := key, havePtk := true } (A.message1 rc)
      (min S.rsnIeLen room)), ?_, derived, rfl, nonce_encode _ _, micValid_signed _ _⟩
  rw [Supplicant.onMessage1, if_neg long]
  refine bind_eq_ok.mpr ⟨_, derives, ?_⟩
  have fits : ¬ frameFixed + room < frameFixed + min S.rsnIeLen room := by omega
  simp only [Nat.add_sub_cancel_left, if_neg fits]
  rfl

/-- The authenticator finds the supplicant's key. -/
theorem onMessage2_ok {S' : Supplicant} {m2 : List UInt8}
    (derived : pairwiseKey S.pmk S.aa S.spa A.anonce S.snonce = .ok S'.ptk)
    (nonce : arrayAt 32 m2 offNonce = S.snonce) (valid : micValid (kck S'.ptk) m2 = true) :
    A.onMessage2 S.pmk S.aa S.spa m2 = .ok S'.ptk := by
  obtain ⟨key, first, second⟩ := exists_pairwiseKey S.pmk S.aa S.spa A.anonce S.snonce
  obtain rfl : key = S'.ptk := Except.ok.inj (first.symm.trans derived)
  rw [Authenticator.onMessage2, nonce]
  refine bind_eq_ok.mpr ⟨S'.ptk, second, ?_⟩
  rw [if_pos valid]
  rfl

/-- The frame of message 3, once the group key is wrapped. -/
def frame3 (rc : Vector UInt8 8) (wrapped : List UInt8) : KeyFrame :=
  ⟨A.descriptor, A.version ||| (kiKeyMic ||| kiAck ||| kiInstall ||| kiSecure) ||| kiEncrypted,
    A.keyLength, rc, A.anonce, A.lifetime, wrapped⟩

theorem message3_fields {key : Vector UInt8 48} {rc : Vector UInt8 8} {m3 : List UInt8}
    (sent : A.message3 key rc = some m3) :
    arrayAt 32 m3 offNonce = A.anonce ∧ arrayAt 8 m3 offReplay = rc := by
  rw [Authenticator.message3] at sent
  obtain ⟨wrapped, _, sent⟩ := Option.bind_eq_some_iff.mp sent
  cases sent
  exact ⟨nonce_encode _ _, replay_encode _ _⟩

/-- The group key wraps into at most 55 bytes, in whole blocks. -/
theorem exists_wrapped (key : Vector UInt8 48) :
    ∃ wrapped, keyWrap (kek key) (pad (gtkKde A.keyId A.gtk))
        ((pad (gtkKde A.keyId A.gtk)).length + 8) = some wrapped ∧
      wrapped.length % 8 = 0 ∧ 16 ≤ wrapped.length ∧ wrapped.length ≤ 55 ∧
        keyUnwrap (kek key) wrapped (wrapped.length - 8) =
          some (pad (gtkKde A.keyId A.gtk)) := by
  have fits := A.gtk_fits
  have kdeSize := length_gtkKde A.keyId A.gtk
  obtain ⟨multiple, atLeast, atMost⟩ := length_pad (gtkKde A.keyId A.gtk)
  have nonempty : pad (gtkKde A.keyId A.gtk) ≠ [] := by
    intro empty
    rw [empty, List.length_nil] at atLeast
    omega
  have wraps : keyWrap (kek key) (pad (gtkKde A.keyId A.gtk))
      ((pad (gtkKde A.keyId A.gtk)).length + 8) =
        some (wrapBlocks (kek key) ((pad (gtkKde A.keyId A.gtk)).length / 8)
          (pad (gtkKde A.keyId A.gtk))) := by
    rw [keyWrap, if_neg (not_or.mpr ⟨nonempty, not_not.mpr multiple⟩), if_neg (by omega)]
  obtain ⟨unwraps, size⟩ := keyUnwrap_of_keyWrap wraps (Nat.le_refl _)
  refine ⟨_, wraps, by omega, by omega, by omega, ?_⟩
  rw [size, Nat.add_sub_cancel]
  exact unwraps

/-- The supplicant reads the group key out of message 3. -/
theorem groupKey_frame3 (rc : Vector UInt8 8) {wrapped : List UInt8} (mic : Vector UInt8 16)
    (whole : wrapped.length % 8 = 0) (least : 16 ≤ wrapped.length) (most : wrapped.length ≤ 55)
    (unwraps : keyUnwrap (kek S.ptk) wrapped (wrapped.length - 8) =
      some (pad (gtkKde A.keyId A.gtk))) :
    S.groupKey (encode (frame3 A rc wrapped) mic) wrapped.length = .ok (some A.gtk) := by
  obtain ⟨rest, padded⟩ := pad_prefix (gtkKde A.keyId A.gtk)
  have encrypted : be16 (encode (frame3 A rc wrapped) mic) offKeyinfo &&& kiEncrypted ≠ 0 := by
    rw [info_encode]
    exact or_and_self_ne_zero _
  have data : Buffer.slice (encode (frame3 A rc wrapped) mic) offKdata wrapped.length = wrapped :=
    data_encode (frame3 A rc wrapped) mic
  rw [Supplicant.groupKey, if_pos ⟨encrypted, least, whole⟩, if_pos (by omega), data, unwraps,
    padded]
  exact findGtkKde_first A.keyId A.gtk_fits rest

/-- Message 3 is accepted by a supplicant with the authenticator's key, which finds the
group key and answers with a code that verifies. -/
theorem onMessage3_message3 (ready : S.havePtk = true) (rc : Vector UInt8 8) (room : Nat) :
    ∃ m3 m4 keys, A.message3 S.ptk rc = some m3 ∧ m3.length ≤ 256 ∧
      S.onMessage3 m3 (frameFixed + room) = .ok (m4, keys) ∧ keys.ptk = S.ptk ∧
        keys.gtkLen = A.gtk.length ∧ keys.gtk.toList.take keys.gtkLen = A.gtk ∧
          Authenticator.onMessage4 S.ptk m4 = true := by
  obtain ⟨wrapped, wraps, whole, least, most, unwraps⟩ := exists_wrapped A S.ptk
  have sent : A.message3 S.ptk rc = some (signed (kck S.ptk) (frame3 A rc wrapped)) := by
    rw [Authenticator.message3, wraps]
    rfl
  have size : (signed (kck S.ptk) (frame3 A rc wrapped)).length = frameFixed + wrapped.length :=
    length_encode _ _
  have small : frameFixed + wrapped.length ≤ 256 :=
    Nat.le_trans (Nat.add_le_add_left most frameFixed) (by decide)
  have verifies : S.verifyMessage3 (signed (kck S.ptk) (frame3 A rc wrapped)) = true := by
    rw [Supplicant.verifyMessage3, size, if_neg (by simp [ready]), if_neg (Nat.not_lt.mpr small),
      micValid_signed]
  have kdlen : (be16 (signed (kck S.ptk) (frame3 A rc wrapped)) offKdlen).toNat =
      wrapped.length := by
    rw [signed, kdlen_encode]
    exact Nat.mod_eq_of_lt (by show wrapped.length < _; omega)
  have found := groupKey_frame3 S A rc (keyMic (kck S.ptk) (encode (frame3 A rc wrapped)
    (zeroes 16))) whole least most unwraps
  have gtkSize := A.gtk_fits
  refine ⟨_, signed (kck S.ptk)
    (Supplicant.message4 (signed (kck S.ptk) (frame3 A rc wrapped))),
    ⟨S.ptk, arrayAt 32 A.gtk 0, A.gtk.length⟩, sent, size ▸ small, ?_, rfl, rfl, ?_,
    micValid_signed _ _⟩
  · rw [Supplicant.onMessage3, if_neg (by simp [verifies])]
    simp only [kdlen, size]
    have whole' : ¬ frameFixed + wrapped.length < offKdata + wrapped.length := Nat.lt_irrefl _
    rw [if_neg whole']
    refine bind_eq_ok.mpr ⟨some A.gtk, found, ?_⟩
    rw [if_neg (Nat.not_lt.mpr (Nat.le_add_right _ _))]
    rfl
  · refine List.ext_getElem ?_ fun i inTake inGtk => ?_
    · rw [List.length_take, Vector.length_toList, Nat.min_eq_left gtkSize]
    · simp [arrayAt, byte, inGtk]

end Messages

/-! ## The whole handshake -/

/-- The pairwise key does not depend on the order of the addresses, nor on that of the
nonces. -/
theorem pairwiseKey_comm (pmk : Vector UInt8 32) (aa spa : Vector UInt8 6)
    (anonce snonce : Vector UInt8 32) :
    pairwiseKey pmk aa spa anonce snonce = pairwiseKey pmk spa aa anonce snonce ∧
      pairwiseKey pmk aa spa anonce snonce = pairwiseKey pmk aa spa snonce anonce := by
  constructor
  · rw [pairwiseKey, pairwiseKey, ptk, ptk, minMax_comm aa.toList]
  · rw [pairwiseKey, pairwiseKey, ptk, ptk, minMax_comm anonce.toList]

/-- **The handshake agrees**: whatever the keys, addresses, nonces, counters and group key,
the honest authenticator and the supplicant derive the same pairwise key, the authenticator
accepts messages 2 and 4, the supplicant accepts message 3 and returns the authenticator's
group key, and the pairwise key does not depend on the side that computes it. -/
theorem handshake_agrees (S : Supplicant) (A : Authenticator) (rc1 rc3 : Vector UInt8 8)
    (room2 room4 : Nat) :
    (∃ S' m2 m3 m4 keys,
      S.onMessage1 (A.message1 rc1) (frameFixed + room2) = .ok (S', m2) ∧
      A.onMessage2 S.pmk S.aa S.spa m2 = .ok S'.ptk ∧
      A.message3 S'.ptk rc3 = some m3 ∧ m3.length ≤ 256 ∧
      S'.onMessage3 m3 (frameFixed + room4) = .ok (m4, keys) ∧
      keys.ptk = S'.ptk ∧ keys.gtkLen = A.gtk.length ∧
      keys.gtk.toList.take keys.gtkLen = A.gtk ∧
      Authenticator.onMessage4 S'.ptk m4 = true) ∧
    (∀ aa spa anonce snonce,
      pairwiseKey S.pmk aa spa anonce snonce = pairwiseKey S.pmk spa aa anonce snonce ∧
      pairwiseKey S.pmk aa spa anonce snonce = pairwiseKey S.pmk aa spa snonce anonce) := by
  refine ⟨?_, pairwiseKey_comm S.pmk⟩
  obtain ⟨S', m2, answered, derived, next, nonce, valid⟩ := onMessage1_message1 S A rc1 room2
  have ready : S'.havePtk = true := by rw [next]
  obtain ⟨m3, m4, keys, sent, small, accepted, same, gtkLen, gtk, done⟩ :=
    onMessage3_message3 S' A ready rc3 room4
  exact ⟨S', m2, m3, m4, keys, answered, onMessage2_ok S A derived nonce valid, sent, small,
    accepted, same, gtkLen, gtk, done⟩

end RustyPenguin.Wpa2
