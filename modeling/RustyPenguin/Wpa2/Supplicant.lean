import RustyPenguin.Crypto.Aes
import RustyPenguin.Crypto.Sha1
import RustyPenguin.Foundation.Buffer

/-!
# The supplicant of the 4-way handshake

The station's side of the WPA2 handshake: fed with message 1 it derives the pairwise key
and answers with message 2, fed with message 3 it checks the integrity code, unwraps the
group key and answers with message 4.

A `KeyFrame` is what the bytes of an EAPOL-Key frame say. The integrity code of a frame is
computed over the whole frame with the field of the code set to zero (`zeroMic`), so that
its receiver recomputes what its sender computed (`micValid_signed`).
-/

set_option autoImplicit false

namespace RustyPenguin.Wpa2

open Checked Crypto

/-! ## Frames -/

def kiKeyMic : UInt16 := 0x0100
def kiSecure : UInt16 := 0x0200
def kiAck : UInt16 := 0x0080
def kiInstall : UInt16 := 0x0040
def kiEncrypted : UInt16 := 0x1000

def offHeader : Nat := 4
def offKeyinfo : Nat := 5
def offReplay : Nat := 9
def offNonce : Nat := 17
def offMic : Nat := 81
def offKdlen : Nat := 97
def offKdata : Nat := 99

/-- Bytes before the key data. -/
def frameFixed : Nat := 99

/-- The big-endian 16-bit word at a position. -/
def be16 (b : List UInt8) (o : Nat) : UInt16 :=
  (byte b o).toUInt16 <<< 8 ||| (byte b (o + 1)).toUInt16

/-- The bytes of a 16-bit word. -/
def wbe16 (v : UInt16) : List UInt8 := [(v >>> 8).toUInt8, v.toUInt8]

/-- What an EAPOL-Key frame says; `lifetime` is the key IV, the RSC and the key id. -/
structure KeyFrame where
  descriptor : UInt8
  info : UInt16
  keyLength : Vector UInt8 2
  replay : Vector UInt8 8
  nonce : Vector UInt8 32
  lifetime : Vector UInt8 32
  data : List UInt8

/-- The 802.1X header: version 2, type 3, and the length of the body. -/
def header (f : KeyFrame) : List UInt8 :=
  [2, 3] ++ wbe16 (UInt16.ofNat (frameFixed + f.data.length - offHeader))

/-- The bytes of a frame with a given integrity code. -/
def encode (f : KeyFrame) (mic : Vector UInt8 16) : List UInt8 :=
  header f ++ ([f.descriptor] ++ (wbe16 f.info ++ (f.keyLength.toList ++ (f.replay.toList ++
    (f.nonce.toList ++ (f.lifetime.toList ++ (mic.toList ++
      (wbe16 (UInt16.ofNat f.data.length) ++ f.data))))))))

def zeroes (n : Nat) : Vector UInt8 n := Vector.replicate n 0

/-- The integrity code of a frame whose code field is zero. -/
def keyMic (kck frame : List UInt8) : Vector UInt8 16 := arrayAt 16 (hmacSha1 kck frame) 0

/-- A frame with its integrity code filled in. -/
def signed (kck : List UInt8) (f : KeyFrame) : List UInt8 :=
  encode f (keyMic kck (encode f (zeroes 16)))

/-- A frame with its code field set to zero. -/
def zeroMic (frame : List UInt8) : List UInt8 :=
  frame.take offMic ++ (zeroes 16).toList ++ frame.drop (offMic + 16)

/-- Does the integrity code of a frame verify? -/
def micValid (kck frame : List UInt8) : Bool :=
  keyMic kck (zeroMic frame) == arrayAt 16 frame offMic

/-! ## Keys -/

/-- Result of a completed handshake: the group key has `gtkLen` bytes. -/
structure Keys where
  ptk : Vector UInt8 48
  gtk : Vector UInt8 32
  gtkLen : Nat

/-- The key confirmation key: the first 16 bytes of the pairwise key. -/
def kck (ptk : Vector UInt8 48) : List UInt8 := ptk.toList.take 16

/-- The key encryption key: the 16 bytes after it. -/
def kek (ptk : Vector UInt8 48) : Block := arrayAt 16 ptk.toList 16

/-- The pairwise key of two peers. -/
def pairwiseKey (pmk : Vector UInt8 32) (aa spa : Vector UInt8 6) (anonce snonce : Vector UInt8 32) :
    Checked (Vector UInt8 48) := do
  let out ← ptk pmk.toList aa.toList spa.toList anonce.toList snonce.toList 48
  pure (arrayAt 48 out 0)

/-- The supplicant: its RSN information element has at most 32 bytes. -/
structure Supplicant where
  pmk : Vector UInt8 32
  aa : Vector UInt8 6
  spa : Vector UInt8 6
  snonce : Vector UInt8 32
  rsnIe : Vector UInt8 32
  rsnIeLen : Nat
  ptk : Vector UInt8 48
  havePtk : Bool
  rsnIe_fits : rsnIeLen ≤ 32

/-- The key information of an answer: bytes 6 and 7 of the message answered are copied over
its low byte and over the high byte of the key length. -/
def mirrorInfo (m : List UInt8) (ki : UInt16) : UInt16 :=
  (ki &&& 0xFF00) ||| (byte m (offHeader + 2)).toUInt16

/-- The key length of an answer. -/
def mirrorLength (m : List UInt8) : Vector UInt8 2 := #v[byte m (offHeader + 3), 0]

namespace Supplicant

def new (pmk : Vector UInt8 32) (aa spa : Vector UInt8 6) (snonce : Vector UInt8 32) :
    Supplicant where
  pmk := pmk
  aa := aa
  spa := spa
  snonce := snonce
  rsnIe := zeroes 32
  rsnIeLen := 0
  ptk := zeroes 48
  havePtk := false
  rsnIe_fits := Nat.zero_le _

def derivePtk (self : Supplicant) (anonce : Vector UInt8 32) : Checked Supplicant := do
  let ptk ← pairwiseKey self.pmk self.aa self.spa anonce self.snonce
  pure { self with ptk := ptk, havePtk := true }

/-- Message 2: it mirrors message 1, and carries the supplicant's nonce and RSN element. -/
def message2 (self : Supplicant) (m1 : List UInt8) (kd : Nat) : KeyFrame where
  descriptor := byte m1 offHeader
  info := mirrorInfo m1 ((be16 m1 offKeyinfo &&& 0x0007) ||| kiKeyMic)
  keyLength := mirrorLength m1
  replay := arrayAt 8 m1 offReplay
  nonce := self.snonce
  lifetime := zeroes 32
  data := self.rsnIe.toList.take kd

/-- Process message 1 with `room` bytes for the answer: the next state, and message 2 or
nothing when message 1 is too short or the answer does not fit. -/
def onMessage1 (self : Supplicant) (m1 : List UInt8) (room : Nat) :
    Checked (Supplicant × List UInt8) :=
  if m1.length < frameFixed then pure (self, [])
  else do
    let self ← self.derivePtk (arrayAt 32 m1 offNonce)
    let kd := min self.rsnIeLen (room - frameFixed)
    if room < frameFixed + kd then pure (self, [])
    else pure (self, signed (kck self.ptk) (self.message2 m1 kd))

/-- Verify the integrity code of message 3. -/
def verifyMessage3 (self : Supplicant) (m3 : List UInt8) : Bool :=
  if self.havePtk = false ∨ m3.length < frameFixed then false
  else if 256 < m3.length then false
  else micValid (kck self.ptk) m3

end Supplicant

/-- Find the group key in a list of key data elements, from position `i` on. -/
def findGtkFrom (kd : List UInt8) : Nat → Nat → Checked (Option (List UInt8))
  | 0, _ => fault
  | steps + 1, i => do
    let next ← addIn 64 i 2
    if next ≤ kd.length then do
      let x ← index kd i
      if x ≠ 0xdd then pure none
      else do
        let len ← index kd (i + 1)
        let after ← addIn 64 next len.toNat
        if kd.length < after ∨ len.toNat < 4 then pure none
        else do
          let body ← sub kd next after
          if body.take 4 = [0x00, 0x0f, 0xac, 0x01] then do
            let gtk ← sub body 6 body.length
            pure (some (gtk.take (min gtk.length 32)))
          else findGtkFrom kd steps after
    else pure none

/-- Find the group key inside unwrapped key data. -/
def findGtkKde (kd : List UInt8) : Checked (Option (List UInt8)) :=
  findGtkFrom kd (kd.length + 1) 0

namespace Supplicant

/-- Message 4: it mirrors message 3, with no nonce and no key data. -/
def message4 (m3 : List UInt8) : KeyFrame where
  descriptor := byte m3 offHeader
  info := mirrorInfo m3 ((be16 m3 offKeyinfo &&& 0x0007) ||| kiKeyMic ||| kiSecure)
  keyLength := mirrorLength m3
  replay := arrayAt 8 m3 offReplay
  nonce := zeroes 32
  lifetime := zeroes 32
  data := []

/-- The group key that message 3 carries, if its key data is encrypted and unwraps. -/
def groupKey (self : Supplicant) (m3 : List UInt8) (kdlen : Nat) :
    Checked (Option (List UInt8)) :=
  if be16 m3 offKeyinfo &&& kiEncrypted ≠ 0 ∧ 16 ≤ kdlen ∧ kdlen % 8 = 0 then
    if kdlen - 8 ≤ 64 then
      match keyUnwrap (kek self.ptk) (Buffer.slice m3 offKdata kdlen) (kdlen - 8) with
      | some unwrapped => findGtkKde unwrapped
      | none => pure none
    else pure none
  else pure none

/-- Process message 3: message 4 and the keys. -/
def onMessage3 (self : Supplicant) (m3 : List UInt8) (room : Nat) :
    Checked (List UInt8 × Keys) :=
  if self.verifyMessage3 m3 = false then refuse
  else
    let kdlen := (be16 m3 offKdlen).toNat
    if m3.length < offKdata + kdlen then refuse
    else do
      let gtk? ← self.groupKey m3 kdlen
      let keys : Keys :=
        match gtk? with
        | some g => ⟨self.ptk, arrayAt 32 g 0, g.length⟩
        | none => ⟨self.ptk, zeroes 32, 0⟩
      if room < frameFixed then refuse
      else pure (signed (kck self.ptk) (message4 m3), keys)

end Supplicant

/-! ## What a receiver reads -/

theorem arrayAt_of_split {n off : Nat} {bytes back : List UInt8} {v : Vector UInt8 n}
    (front : List UInt8) (split : bytes = front ++ (v.toList ++ back)) (size : front.length = off) :
    arrayAt n bytes off = v := by
  rw [split, ← size]
  exact arrayAt_append front v back

theorem be16_bytes (v : UInt16) :
    ((v >>> 8).toUInt8).toUInt16 <<< 8 ||| v.toUInt8.toUInt16 = v := by
  refine UInt16.toNat_inj.mp ?_
  have bound := v.toNat_lt
  have low : v.toNat % 256 < 2 ^ 8 := Nat.mod_lt _ (by decide)
  have high : v.toNat / 256 < 256 := by omega
  have word := Nat.shiftLeft_add_eq_or_of_lt low (v.toNat / 256)
  simp [Nat.shiftRight_eq_div_pow, Nat.shiftLeft_eq] at word ⊢
  rw [Nat.mod_eq_of_lt high, Nat.mod_eq_of_lt (by omega), ← word]
  omega

theorem be16_of_split {off : Nat} {bytes back : List UInt8} {v : UInt16} (front : List UInt8)
    (split : bytes = front ++ (wbe16 v ++ back)) (size : front.length = off) :
    be16 bytes off = v := by
  have first : byte bytes off = (v >>> 8).toUInt8 := by
    have read := byte_append_right front (wbe16 v ++ back) 0
    rw [Nat.add_zero, size] at read
    rw [split, read]
    rfl
  have second : byte bytes (off + 1) = v.toUInt8 := by
    have read := byte_append_right front (wbe16 v ++ back) 1
    rw [size] at read
    rw [split, read]
    rfl
  rw [be16, first, second, be16_bytes]

section Encode

variable (f : KeyFrame) (mic : Vector UInt8 16)

theorem length_encode : (encode f mic).length = frameFixed + f.data.length := by
  simp [encode, header, wbe16, frameFixed]
  omega

@[simp] theorem descriptor_encode : byte (encode f mic) offHeader = f.descriptor := rfl

/-- The bytes before the integrity code. -/
def beforeMic : List UInt8 :=
  header f ++ ([f.descriptor] ++ (wbe16 f.info ++ (f.keyLength.toList ++ (f.replay.toList ++
    (f.nonce.toList ++ f.lifetime.toList)))))

theorem length_beforeMic : (beforeMic f).length = offMic := by
  simp [beforeMic, header, wbe16, offMic]

theorem encode_split : encode f mic =
    beforeMic f ++ (mic.toList ++ (wbe16 (UInt16.ofNat f.data.length) ++ f.data)) := by
  simp only [encode, beforeMic, List.append_assoc]

@[simp] theorem info_encode : be16 (encode f mic) offKeyinfo = f.info :=
  be16_of_split (header f ++ [f.descriptor])
    (by simp only [encode, List.append_assoc]; rfl) rfl

@[simp] theorem keyLength_encode : arrayAt 2 (encode f mic) (offHeader + 3) = f.keyLength :=
  arrayAt_of_split (header f ++ ([f.descriptor] ++ wbe16 f.info))
    (by simp only [encode, List.append_assoc]; rfl) rfl

@[simp] theorem replay_encode : arrayAt 8 (encode f mic) offReplay = f.replay :=
  arrayAt_of_split
    (header f ++ ([f.descriptor] ++ (wbe16 f.info ++ f.keyLength.toList)))
    (by simp only [encode, List.append_assoc]; rfl) (by simp [header, wbe16, offReplay])

@[simp] theorem nonce_encode : arrayAt 32 (encode f mic) offNonce = f.nonce :=
  arrayAt_of_split
    (header f ++ ([f.descriptor] ++ (wbe16 f.info ++ (f.keyLength.toList ++
      f.replay.toList))))
    (by simp only [encode, List.append_assoc]; rfl) (by simp [header, wbe16, offNonce])

@[simp] theorem mic_encode : arrayAt 16 (encode f mic) offMic = mic :=
  arrayAt_of_split (beforeMic f) (encode_split f mic) (length_beforeMic f)

@[simp] theorem kdlen_encode :
    be16 (encode f mic) offKdlen = UInt16.ofNat f.data.length :=
  be16_of_split (beforeMic f ++ mic.toList)
    (by simp only [encode_split, List.append_assoc]; rfl)
    (by simp [length_beforeMic, offMic, offKdlen])

theorem data_encode : Buffer.slice (encode f mic) offKdata f.data.length = f.data := by
  have split : encode f mic =
      (beforeMic f ++ mic.toList ++ wbe16 (UInt16.ofNat f.data.length)) ++ f.data := by
    simp only [encode_split, List.append_assoc]
  have size : (beforeMic f ++ mic.toList ++ wbe16 (UInt16.ofNat f.data.length)).length =
      offKdata := by
    simp [length_beforeMic, wbe16, offMic, offKdata]
  rw [Buffer.slice, split, List.drop_left' size, List.take_length]

/-- Setting the code to zero gives the frame the code is computed over. -/
theorem zeroMic_encode : zeroMic (encode f mic) = encode f (zeroes 16) := by
  have front := length_beforeMic f
  have both : (beforeMic f ++ mic.toList).length = offMic + 16 := by simp [front]
  have split : encode f mic =
      (beforeMic f ++ mic.toList) ++ (wbe16 (UInt16.ofNat f.data.length) ++ f.data) := by
    simp only [encode_split, List.append_assoc]
  have before : (encode f mic).take offMic = beforeMic f := by
    rw [encode_split, List.take_left' front]
  have after : (encode f mic).drop (offMic + 16) = wbe16 (UInt16.ofNat f.data.length) ++ f.data := by
    rw [split, List.drop_left' both]
  rw [zeroMic, before, after, encode_split, List.append_assoc]

end Encode

/-- **Integrity codes agree**: what a sender signs verifies under the same key. -/
theorem micValid_signed (key : List UInt8) (f : KeyFrame) : micValid key (signed key f) = true := by
  rw [micValid, signed, zeroMic_encode, mic_encode, beq_self_eq_true]

/-- The pairwise key of two peers, as a value: both derive it, in either order. -/
theorem exists_pairwiseKey (pmk : Vector UInt8 32) (aa spa : Vector UInt8 6)
    (anonce snonce : Vector UInt8 32) :
    ∃ key, pairwiseKey pmk aa spa anonce snonce = .ok key ∧
      pairwiseKey pmk spa aa snonce anonce = .ok key := by
  obtain ⟨out, derived, _⟩ := ptk_ok pmk.toList aa.toList spa.toList anonce.toList snonce.toList
    (by decide : 48 ≤ 5080)
  refine ⟨arrayAt 48 out 0, bind_eq_ok.mpr ⟨out, derived, rfl⟩, ?_⟩
  exact bind_eq_ok.mpr ⟨out, (ptk_comm _ _ _ _ _ _).symm.trans derived, rfl⟩

end RustyPenguin.Wpa2
