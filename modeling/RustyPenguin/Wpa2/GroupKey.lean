import RustyPenguin.Crypto.KeyWrap
import RustyPenguin.Wpa2.KeyData

/-!
# The group key that message 3 brings

A message 3 whose key data is marked as encrypted is to be accepted only when its key data
unwraps and a whole group key is found in it. The supplicant tries both, but goes on to
answer whatever comes of it: key data of the wrong length, a failed integrity check, and key
data in which no group key is found all leave it with a group key of no bytes, and a group
key of more than 32 bytes is cut.

`acceptsSoundly_iff` says for which messages the supplicant nevertheless does what it
should.
-/

set_option autoImplicit false

namespace RustyPenguin.Wpa2

open Checked Crypto

namespace Supplicant

variable (S : Supplicant) (m3 : List UInt8)

/-- The length of the key data of message 3. -/
def kdlen : Nat := (be16 m3 offKdlen).toNat

/-- Message 3 marks its key data as encrypted. -/
def Encrypted : Prop := be16 m3 offKeyinfo &&& kiEncrypted ≠ 0

/-- The key data of message 3 fits the buffer it is unwrapped into, passes the integrity check
and unwraps to `plain`. -/
def Unwraps (plain : List UInt8) : Prop :=
  kdlen m3 - 8 ≤ 64 ∧
    keyUnwrap (kek S.ptk) (Buffer.slice m3 offKdata (kdlen m3)) (kdlen m3 - 8) = some plain

/-- The keys hold the whole group key of the first group key element of the key data. -/
def Recovered (keys : Keys) : Prop :=
  ∃ (plain : List UInt8) (before : List Element) (g : Element) (rest : List UInt8),
    S.Unwraps m3 plain ∧ plain = elementsBytes before ++ (g.bytes ++ rest) ∧
      (∀ x ∈ before, ¬ x.IsGtk) ∧ g.IsGtk ∧ 0 < keys.gtkLen ∧ keys.gtkLen = g.key.length ∧
        keys.gtk.toList.take keys.gtkLen = g.key

/-- A message 3 with encrypted key data is accepted with the group key it carries, or refused. -/
def AcceptsSoundly (room : Nat) : Prop :=
  Encrypted m3 → S.onMessage3 m3 room = refuse ∨
    ∃ m4 keys, S.onMessage3 m3 room = .ok (m4, keys) ∧ S.Recovered m3 keys

/-- The search reaches a whole group key in the unwrapped key data. -/
def CarriesGtk : Prop :=
  ∃ (plain : List UInt8) (g : Element), S.Unwraps m3 plain ∧ Reaches plain g ∧ g.IsGtk ∧
    0 < g.key.length ∧ g.key.length ≤ 32

/-- The search reaches an element of the group key's type that is too short for a key id. -/
def CarriesShort : Prop :=
  ∃ (plain : List UInt8) (e : Element), S.Unwraps m3 plain ∧ Reaches plain e ∧ e.GtkType ∧
    e.body.length < 6

/-- Message 3 is refused before its key data is looked at. -/
def RefusesEarly : Prop := S.verifyMessage3 m3 = false ∨ m3.length < offKdata + kdlen m3

variable {S m3}

/-! ## What is read from the key data -/

theorem unwraps_unique {plain plain' : List UInt8} (first : S.Unwraps m3 plain)
    (second : S.Unwraps m3 plain') : plain = plain' :=
  Option.some.inj (first.2.symm.trans second.2)

/-- What unwraps is eight bytes shorter than what was wrapped, so it is short. -/
theorem length_of_unwraps {plain : List UInt8} (unwraps : S.Unwraps m3 plain) :
    plain.length < 2 ^ 63 ∧ 16 ≤ kdlen m3 ∧ plain.length ≤ 64 := by
  obtain ⟨fits, unwraps⟩ := unwraps
  have size := (keyWrap_of_keyUnwrap unwraps (Nat.le_refl _)).2
  have most : (Buffer.slice m3 offKdata (kdlen m3)).length ≤ kdlen m3 := by
    rw [Buffer.slice, List.length_take]
    exact Nat.min_le_left _ _
  have least : 16 ≤ (Buffer.slice m3 offKdata (kdlen m3)).length := by
    by_contra short
    rw [keyUnwrap, if_pos (Or.inl (Nat.not_le.mp short))] at unwraps
    cases unwraps
  omega

/-- The group key of a message 3 whose key data unwraps is what the search finds. -/
theorem groupKey_of_unwraps {plain : List UInt8} (encrypted : Encrypted m3)
    (whole : offKdata + kdlen m3 ≤ m3.length) (unwraps : S.Unwraps m3 plain) :
    S.groupKey m3 (kdlen m3) = findGtkKde plain := by
  obtain ⟨_, least, _⟩ := length_of_unwraps unwraps
  obtain ⟨fits, unwraps⟩ := unwraps
  have size : (Buffer.slice m3 offKdata (kdlen m3)).length = kdlen m3 :=
    Buffer.length_slice whole
  have blocks : kdlen m3 % 8 = 0 := by
    by_contra ragged
    rw [keyUnwrap, if_pos (Or.inr (by rw [size]; exact ragged))] at unwraps
    cases unwraps
  rw [groupKey, if_pos ⟨encrypted, least, blocks⟩, if_pos fits, unwraps]

/-- No group key is found when the key data does not unwrap. -/
theorem groupKey_of_not_unwraps (fails : ∀ plain, ¬ S.Unwraps m3 plain) :
    S.groupKey m3 (kdlen m3) = .ok none := by
  rw [groupKey]
  split
  · split
    · rename_i fits
      split
      · rename_i plain unwraps
        exact absurd ⟨fits, unwraps⟩ (fails plain)
      · rfl
    · rfl
  · rfl

/-- What message 3 brings, in one of three ways: a whole or cut group key, a fault, or none. -/
theorem groupKey_cases (encrypted : Encrypted m3) (whole : offKdata + kdlen m3 ≤ m3.length) :
    (∃ (plain : List UInt8) (g : Element), S.Unwraps m3 plain ∧ Reaches plain g ∧ g.IsGtk ∧
      S.groupKey m3 (kdlen m3) = .ok (some (g.key.take 32))) ∨
    (S.CarriesShort m3 ∧ S.groupKey m3 (kdlen m3) = fault) ∨
    S.groupKey m3 (kdlen m3) = .ok none := by
  by_cases opens : ∃ plain, S.Unwraps m3 plain
  · obtain ⟨plain, unwraps⟩ := opens
    have bounded := (length_of_unwraps unwraps).1
    rw [groupKey_of_unwraps encrypted whole unwraps]
    rcases findGtkKde_cases bounded with ⟨e, reached, type⟩ | nothing
    · have outcome := findGtkKde_of_reaches bounded reached type
      by_cases long : 6 ≤ e.body.length
      · exact Or.inl ⟨plain, e, unwraps, reached, ⟨type, long⟩,
          outcome.trans (Element.readKey_of_isGtk ⟨type, long⟩)⟩
      · have short := Nat.not_le.mp long
        exact Or.inr (Or.inl ⟨⟨plain, e, unwraps, reached, type, short⟩,
          outcome.trans (Element.readKey_of_short short)⟩)
    · exact Or.inr (Or.inr nothing)
  · exact Or.inr (Or.inr (groupKey_of_not_unwraps fun plain unwraps => opens ⟨plain, unwraps⟩))

/-! ## What the supplicant makes of it -/

/-- The keys that the supplicant returns for what it read. -/
def keysOf (S : Supplicant) (gtk? : Option (List UInt8)) : Keys :=
  match gtk? with
  | some g => ⟨S.ptk, arrayAt 32 g 0, g.length⟩
  | none => ⟨S.ptk, zeroes 32, 0⟩

/-- The pairwise key returned is the supplicant's. -/
theorem ptk_keysOf (S : Supplicant) (gtk? : Option (List UInt8)) : (S.keysOf gtk?).ptk = S.ptk := by
  cases gtk? <;> rfl

theorem onMessage3_of_early (early : S.RefusesEarly m3) (room : Nat) :
    S.onMessage3 m3 room = refuse := by
  rw [onMessage3]
  rcases early with invalid | short
  · rw [if_pos invalid]
  · split
    · rfl
    · exact if_pos short

/-- Past the early checks, only the room for the answer is looked at. -/
theorem onMessage3_of_not_early (passes : ¬ S.RefusesEarly m3) (room : Nat) :
    S.onMessage3 m3 room = (do
      let gtk? ← S.groupKey m3 (kdlen m3)
      if room < frameFixed then refuse
      else pure (signed (kck S.ptk) (message4 m3), S.keysOf gtk?)) := by
  obtain ⟨valid, long⟩ := not_or.mp passes
  rw [onMessage3, if_neg valid]
  exact if_neg long

theorem take_arrayAt {gtk : List UInt8} (fits : gtk.length ≤ 32) :
    (arrayAt 32 gtk 0).toList.take gtk.length = gtk := by
  refine List.ext_getElem ?_ fun i inTake inGtk => ?_
  · rw [List.length_take, Vector.length_toList, Nat.min_eq_left fits]
  · simp [arrayAt, byte, inGtk]

end Supplicant

open Supplicant

/-- **When message 3 is accepted soundly**: a message whose key data is marked as encrypted is
refused, or accepted with the whole group key of its key data, if and only if its integrity
code does not verify or its key data is cut off, or there is no room for the answer and the
search does not fault, or its key data unwraps and the search reaches a group key of one to
32 bytes in it. In all other cases the message is accepted without that group key. -/
theorem acceptsSoundly_iff (S : Supplicant) (m3 : List UInt8) (room : Nat) :
    S.AcceptsSoundly m3 room ↔
      (Encrypted m3 → S.RefusesEarly m3 ∨ (room < frameFixed ∧ ¬ S.CarriesShort m3) ∨
        S.CarriesGtk m3) := by
  constructor
  · intro sound encrypted
    by_cases early : S.RefusesEarly m3
    · exact Or.inl early
    have whole := Nat.not_lt.mp (not_or.mp early).2
    have outcome := sound encrypted
    rw [onMessage3_of_not_early early] at outcome
    refine Or.inr ?_
    rcases groupKey_cases encrypted whole with ⟨plain, g, unwraps, reached, gtk, found⟩ |
      ⟨_, faults⟩ | nothing
    · by_cases tight : room < frameFixed
      · refine Or.inl ⟨tight, ?_⟩
        rintro ⟨plain', e, unwraps', reached', type, short⟩
        rw [groupKey_of_unwraps encrypted whole unwraps',
          findGtkKde_of_reaches (length_of_unwraps unwraps').1 reached' type,
          Element.readKey_of_short short] at found
        cases found
      rw [bind_of_ok found, if_neg tight] at outcome
      rcases outcome with refused | ⟨m4, keys, accepted, recovered⟩
      · cases refused
      obtain ⟨rfl, rfl⟩ := Prod.ext_iff.mp (Except.ok.inj accepted)
      obtain ⟨plain', before, g', rest, unwraps', split, none_before, gtk', some_bytes, size, _⟩ :=
        recovered
      obtain rfl := unwraps_unique unwraps unwraps'
      obtain ⟨passed, tail, earlier, whole'⟩ := id reached
      obtain ⟨_, rfl⟩ := split_unique gtk earlier none_before gtk' (whole'.symm.trans split)
      have cut : (g'.key.take 32).length = g'.key.length := size
      rw [List.length_take] at cut
      refine Or.inr ⟨plain, g', unwraps, reached, gtk, size ▸ some_bytes, ?_⟩
      exact min_eq_right_iff.mp cut
    · rw [faults] at outcome
      rcases outcome with refused | ⟨m4, keys, accepted, _⟩
      · cases refused
      · cases accepted
    · by_cases tight : room < frameFixed
      · refine Or.inl ⟨tight, ?_⟩
        rintro ⟨plain', e, unwraps', reached', type, short⟩
        rw [groupKey_of_unwraps encrypted whole unwraps',
          findGtkKde_of_reaches (length_of_unwraps unwraps').1 reached' type,
          Element.readKey_of_short short] at nothing
        cases nothing
      rw [bind_of_ok nothing, if_neg tight] at outcome
      rcases outcome with refused | ⟨m4, keys, accepted, recovered⟩
      · cases refused
      obtain ⟨rfl, rfl⟩ := Prod.ext_iff.mp (Except.ok.inj accepted)
      obtain ⟨_, _, _, _, _, _, _, _, some_bytes, _⟩ := recovered
      exact absurd some_bytes (Nat.lt_irrefl 0)
  · intro condition encrypted
    by_cases early : S.RefusesEarly m3
    · exact Or.inl (onMessage3_of_early early room)
    have whole := Nat.not_lt.mp (not_or.mp early).2
    rw [onMessage3_of_not_early early]
    rcases condition encrypted with refuses | ⟨tight, safe⟩ | carries
    · exact absurd refuses early
    · left
      rcases groupKey_cases encrypted whole with ⟨_, _, _, _, _, found⟩ | ⟨short, _⟩ | nothing
      · rw [bind_of_ok found, if_pos tight]
      · exact absurd short safe
      · rw [bind_of_ok nothing, if_pos tight]
    · obtain ⟨plain, g, unwraps, reached, gtk, positive, fits⟩ := carries
      have found : S.groupKey m3 (kdlen m3) = .ok (some g.key) := by
        rw [groupKey_of_unwraps encrypted whole unwraps,
          findGtkKde_of_reaches (length_of_unwraps unwraps).1 reached gtk.1,
          Element.readKey_of_isGtk gtk, List.take_of_length_le fits]
      rw [bind_of_ok found]
      by_cases tight : room < frameFixed
      · exact Or.inl (if_pos tight)
      · refine Or.inr ⟨_, _, if_neg tight, ?_⟩
        obtain ⟨passed, rest, earlier, split⟩ := reached
        exact ⟨plain, passed, g, rest, unwraps, split,
          fun x member isGtk => Element.not_gtkType_of_passed (earlier x member) isGtk.1, gtk,
          positive, rfl, take_arrayAt fits⟩

theorem noElement_fits : 0 ≤ 32 := by decide

/-- A supplicant that has derived a pairwise key. -/
def readySupplicant : Supplicant where
  pmk := zeroes 32
  aa := zeroes 6
  spa := zeroes 6
  snonce := zeroes 32
  rsnIe := zeroes 32
  rsnIeLen := 0
  ptk := zeroes 48
  havePtk := true
  rsnIe_fits := noElement_fits

/-- A message 3 that marks its key data as encrypted and has none. -/
def bareMessage3 : List UInt8 :=
  signed (kck (zeroes 48)) ⟨2, 0x13ca, zeroes 2, zeroes 8, zeroes 32, zeroes 32, []⟩

/-- The supplicant accepts encrypted key data that brings no group key. -/
theorem not_acceptsSoundly_bareMessage3 :
    readySupplicant.verifyMessage3 bareMessage3 = true ∧ Encrypted bareMessage3 ∧
      (∃ m4, readySupplicant.onMessage3 bareMessage3 frameFixed =
        .ok (m4, ⟨zeroes 48, zeroes 32, 0⟩)) ∧
        ¬ readySupplicant.AcceptsSoundly bareMessage3 frameFixed := by
  have size : bareMessage3.length = frameFixed := length_encode _ _
  have valid : readySupplicant.verifyMessage3 bareMessage3 = true := by
    rw [verifyMessage3, size, if_neg (by decide), if_neg (by decide)]
    exact micValid_signed _ _
  have empty : kdlen bareMessage3 = 0 := by
    rw [kdlen, bareMessage3, signed, kdlen_encode]
    rfl
  have encrypted : Encrypted bareMessage3 := by
    rw [Encrypted, bareMessage3, signed, info_encode]
    decide
  have closed : ∀ plain, ¬ readySupplicant.Unwraps bareMessage3 plain := by
    intro plain unwraps
    have least := (length_of_unwraps unwraps).2.1
    omega
  have passes : ¬ readySupplicant.RefusesEarly bareMessage3 := by
    rintro (invalid | short)
    · rw [valid] at invalid
      cases invalid
    · rw [empty, size] at short
      exact absurd short (by decide)
  have accepts := onMessage3_of_not_early passes frameFixed
  rw [bind_of_ok (groupKey_of_not_unwraps closed)] at accepts
  refine ⟨valid, encrypted, ⟨_, accepts⟩, ?_⟩
  intro sound
  rcases sound encrypted with refused | ⟨_, _, _, recovered⟩
  · rw [accepts] at refused
    cases refused
  · obtain ⟨plain, _, _, _, unwraps, _⟩ := recovered
    exact closed plain unwraps

end RustyPenguin.Wpa2
