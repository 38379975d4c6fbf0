import RustyPenguin.Browser.Reading
import RustyPenguin.Foundation.Checked

/-!
# Escapes in addresses

The browser escapes what is typed as a search, byte by byte, and takes the escapes out of
the target of a redirect. The decoder pushes every byte as a character of its own and reads
a digit by subtracting from it, so it undoes the escapes of plain text only: a character
past ASCII comes back as the characters of its bytes, a space as the plus sign it was
escaped to, and what follows a percent sign may lie below the letters, where the
subtraction has no result (`urls_iff`).
-/

set_option autoImplicit false

namespace RustyPenguin.Browser

open Checked
open Files (Bytes)
open Foundation (Text)

/-! ## The escapes of a search -/

/-- A byte that needs no escape. -/
def isUnreserved (c : UInt8) : Bool :=
  (0x61 ≤ c ∧ c ≤ 0x7A) ∨ (0x41 ≤ c ∧ c ≤ 0x5A) ∨ (0x30 ≤ c ∧ c ≤ 0x39) ∨ c = 0x2D ∨ c = 0x5F ∨
    c = 0x2E ∨ c = 0x7E

/-- A hexadecimal digit, with small or with capital letters. -/
def hexDigit (small : Bool) (n : Nat) : UInt8 :=
  if n < 10 then UInt8.ofNat (0x30 + n)
  else UInt8.ofNat ((if small then 0x61 else 0x41) + (n - 10))

/-- One byte of a search, as `do_fetch` escapes it with capital letters. -/
def queryByte (small : Bool) (c : UInt8) : Bytes :=
  if c = 0x20 then [0x2B]
  else if isUnreserved c then [c]
  else [0x25, hexDigit small (c.toNat / 16), hexDigit small (c.toNat % 16)]

def query (small : Bool) (url : Bytes) : Bytes := url.flatMap (queryByte small)

/-! ## The decoder -/

def isAsciiDigit (b : UInt8) : Bool := 0x30 ≤ b ∧ b ≤ 0x39

/-- The value of a byte taken for a hexadecimal digit. -/
def hexValue (h : UInt8) : Checked Nat :=
  if isAsciiDigit h then subIn h.toNat 0x30
  else do
    let letter ← subIn (h ||| 32).toNat 0x61
    addIn 8 letter 10

/-- A byte as a character. -/
def byteChar (b : UInt8) : Char := Char.ofNat b.toNat

/-- `url_decode`, on the bytes of a string. -/
def urlDecode : Bytes → Checked Text
  | [] => pure []
  | [b] => pure [byteChar b]
  | [b, h] => pure [byteChar b, byteChar h]
  | b :: h :: l :: after =>
      if b = 0x25 then do
        let hv ← hexValue h
        let lv ← hexValue l
        if hv < 16 ∧ lv < 16 then do
          let high ← mulIn 8 hv 16
          let c ← addIn 8 high lv
          let rest ← urlDecode after
          pure (Char.ofNat c :: rest)
        else do
          let rest ← urlDecode (h :: l :: after)
          pure (byteChar b :: rest)
      else do
        let rest ← urlDecode (h :: l :: after)
        pure (byteChar b :: rest)

/-! ## What a decoder is for -/

/-- The value of a hexadecimal digit. -/
def hexOf (b : UInt8) : Option Nat :=
  if isAsciiDigit b then some (b.toNat - 0x30)
  else if 0x61 ≤ b ∧ b ≤ 0x66 then some (b.toNat - 0x61 + 10)
  else if 0x41 ≤ b ∧ b ≤ 0x46 then some (b.toNat - 0x41 + 10)
  else none

/-- The bytes with their escapes taken out and everything else left as it is. -/
def unescaped : Bytes → Text
  | [] => []
  | [b] => [byteChar b]
  | [b, h] => [byteChar b, byteChar h]
  | b :: h :: l :: after =>
      match hexOf h, hexOf l with
      | some hv, some lv =>
          if b = 0x25 then Char.ofNat (hv * 16 + lv) :: unescaped after
          else byteChar b :: unescaped (h :: l :: after)
      | _, _ => byteChar b :: unescaped (h :: l :: after)

/-- A byte whose value as a digit can be computed: a decimal digit, or one that is not below
the letters once its letter case is dropped. -/
def Computable (b : UInt8) : Prop := isAsciiDigit b ∨ 0x61 ≤ b ||| 32

instance (b : UInt8) : Decidable (Computable b) := inferInstanceAs (Decidable (_ ∨ _))

/-- The two bytes behind each percent sign, where there are two, can be computed. -/
def Decodable : Bytes → Prop
  | b :: h :: l :: after => (b = 0x25 → Computable h ∧ Computable l) ∧ Decodable (h :: l :: after)
  | _ => True

/-- The value that subtracting gives for a byte it can be computed for. -/
def digitValue (b : UInt8) : Nat :=
  if isAsciiDigit b then b.toNat - 0x30 else (b ||| 32).toNat - 0x61 + 10

theorem hexValue_of_computable {b : UInt8} (computable : Computable b) :
    hexValue b = .ok (digitValue b) := by
  rw [hexValue, digitValue]
  by_cases digit : isAsciiDigit b = true
  · have above : 0x30 ≤ b.toNat := by
      have bounds := of_decide_eq_true digit
      exact UInt8.le_iff_toNat_le.mp bounds.1
    rw [if_pos digit, if_pos digit, subIn, if_pos above]
    rfl
  · have letter : 0x61 ≤ (b ||| 32).toNat :=
      UInt8.le_iff_toNat_le.mp (computable.resolve_left digit)
    have small : (b ||| 32).toNat - 0x61 + 10 < 2 ^ 8 := by
      have size := (b ||| 32).toNat_lt
      omega
    rw [if_neg digit, if_neg digit, subIn, if_pos letter, pure_bind, addIn, if_pos small]
    rfl

theorem hexValue_of_not_computable {b : UInt8} (past : ¬Computable b) :
    hexValue b = .error .fault := by
  obtain ⟨notDigit, low⟩ := not_or.mp past
  have below : ¬0x61 ≤ (b ||| 32).toNat := fun above => low (UInt8.le_iff_toNat_le.mpr above)
  rw [hexValue, if_neg notDigit, subIn, if_neg below]
  rfl

set_option maxRecDepth 8000 in
theorem hexOf_table : ∀ n, n < 256 → Computable (UInt8.ofNat n) →
    hexOf (UInt8.ofNat n) = if digitValue (UInt8.ofNat n) < 16
      then some (digitValue (UInt8.ofNat n)) else none := by
  decide

/-- A byte is a digit when the value computed for it is one. -/
theorem hexOf_eq {b : UInt8} (computable : Computable b) :
    hexOf b = if digitValue b < 16 then some (digitValue b) else none := by
  have entry := hexOf_table b.toNat b.toNat_lt
  rw [UInt8.ofNat_toNat] at entry
  exact entry computable

set_option maxRecDepth 8000 in
theorem computable_table : ∀ n, n < 256 → hexOf (UInt8.ofNat n) ≠ none →
    Computable (UInt8.ofNat n) ∧ UInt8.ofNat n ≠ 0x25 := by
  decide

/-- A digit can be computed and is no percent sign. -/
theorem computable_of_hexOf {b : UInt8} {v : Nat} (digit : hexOf b = some v) :
    Computable b ∧ b ≠ 0x25 := by
  have entry := computable_table b.toNat b.toNat_lt
  rw [UInt8.ofNat_toNat] at entry
  exact entry (by rw [digit]; exact Option.some_ne_none v)

/-! ## The decoder against what it is for -/

theorem decodable_cons {b h l : UInt8} {after : Bytes} :
    Decodable (b :: h :: l :: after) ↔
      (b = 0x25 → Computable h ∧ Computable l) ∧ Decodable (h :: l :: after) := by
  rw [Decodable]

/-- Digits are no percent signs. -/
theorem decodable_digits {h l : UInt8} {hv lv : Nat} {after : Bytes} (high : hexOf h = some hv)
    (low : hexOf l = some lv) : Decodable (h :: l :: after) ↔ Decodable after := by
  have notH := (computable_of_hexOf high).2
  have notL := (computable_of_hexOf low).2
  match after with
  | [] => simp [Decodable]
  | [b] => simp [Decodable, notH]
  | b :: c :: rest =>
    rw [decodable_cons, decodable_cons]
    exact ⟨fun all => all.2.2, fun all => ⟨fun is => absurd is notH, fun is => absurd is notL, all⟩⟩

theorem urlDecode_plain {b h l : UInt8} {after : Bytes} (plain : b ≠ 0x25) :
    urlDecode (b :: h :: l :: after) =
      (urlDecode (h :: l :: after) >>= fun rest => pure (byteChar b :: rest)) := by
  rw [urlDecode, if_neg plain]

theorem unescaped_plain {b h l : UInt8} {after : Bytes}
    (plain : b ≠ 0x25 ∨ hexOf h = none ∨ hexOf l = none) :
    unescaped (b :: h :: l :: after) = byteChar b :: unescaped (h :: l :: after) := by
  rw [unescaped]
  rcases plain with other | none | none
  · split
    · rw [if_neg other]
    · rfl
  · rw [none]
  · rw [none]
    cases hexOf h <;> rfl

theorem unescaped_escape {h l : UInt8} {hv lv : Nat} {after : Bytes} (high : hexOf h = some hv)
    (low : hexOf l = some lv) :
    unescaped (0x25 :: h :: l :: after) = Char.ofNat (hv * 16 + lv) :: unescaped after := by
  rw [unescaped, high, low]
  rfl

theorem urlDecode_escape {h l : UInt8} {after : Bytes} (ch : Computable h) (cl : Computable l) :
    urlDecode (0x25 :: h :: l :: after) = if digitValue h < 16 ∧ digitValue l < 16
      then (urlDecode after >>= fun rest =>
        pure (Char.ofNat (digitValue h * 16 + digitValue l) :: rest))
      else (urlDecode (h :: l :: after) >>= fun rest => pure (byteChar 0x25 :: rest)) := by
  rw [urlDecode, if_pos rfl, bind_of_ok (hexValue_of_computable ch),
    bind_of_ok (hexValue_of_computable cl)]
  by_cases digits : digitValue h < 16 ∧ digitValue l < 16
  · obtain ⟨high, low⟩ := digits
    have roomHigh : digitValue h * 16 < 2 ^ 8 := by omega
    have room : digitValue h * 16 + digitValue l < 2 ^ 8 := by omega
    rw [if_pos ⟨high, low⟩, if_pos ⟨high, low⟩, mulIn, if_pos roomHigh, pure_bind, addIn,
      if_pos room, pure_bind]
  · rw [if_neg digits, if_neg digits]

/-- **The decoder takes the escapes out where it can be computed, and faults elsewhere.** -/
theorem urlDecode_spec : ∀ bytes : Bytes,
    (Decodable bytes → urlDecode bytes = .ok (unescaped bytes)) ∧
      (¬Decodable bytes → urlDecode bytes = .error .fault)
  | [] => ⟨fun _ => rfl, fun past => absurd trivial past⟩
  | [_] => ⟨fun _ => rfl, fun past => absurd trivial past⟩
  | [_, _] => ⟨fun _ => rfl, fun past => absurd trivial past⟩
  | b :: h :: l :: after => by
    obtain ⟨restGood, restBad⟩ := urlDecode_spec (h :: l :: after)
    obtain ⟨afterGood, afterBad⟩ := urlDecode_spec after
    by_cases plain : b ≠ 0x25
    · have same : Decodable (b :: h :: l :: after) ↔ Decodable (h :: l :: after) := by
        rw [decodable_cons]
        exact ⟨fun all => all.2, fun all => ⟨fun is => absurd is plain, all⟩⟩
      rw [same, urlDecode_plain plain, unescaped_plain (.inl plain)]
      refine ⟨fun good => ?_, fun bad => ?_⟩
      · rw [restGood good]
        rfl
      · rw [restBad bad]
        rfl
    obtain rfl : b = 0x25 := not_not.mp plain
    by_cases ch : Computable h
    · by_cases cl : Computable l
      · rw [urlDecode_escape ch cl]
        by_cases digits : digitValue h < 16 ∧ digitValue l < 16
        · have high : hexOf h = some (digitValue h) := (hexOf_eq ch).trans (if_pos digits.1)
          have low : hexOf l = some (digitValue l) := (hexOf_eq cl).trans (if_pos digits.2)
          have same : Decodable (0x25 :: h :: l :: after) ↔ Decodable after := by
            rw [decodable_cons, decodable_digits high low]
            exact ⟨fun all => all.2, fun all => ⟨fun _ => ⟨ch, cl⟩, all⟩⟩
          rw [same, if_pos digits, unescaped_escape high low]
          refine ⟨fun good => ?_, fun bad => ?_⟩
          · rw [afterGood good]
            rfl
          · rw [afterBad bad]
            rfl
        · have none : hexOf h = none ∨ hexOf l = none := by
            rcases not_and_or.mp digits with big | big
            · exact .inl ((hexOf_eq ch).trans (if_neg big))
            · exact .inr ((hexOf_eq cl).trans (if_neg big))
          have same : Decodable (0x25 :: h :: l :: after) ↔ Decodable (h :: l :: after) := by
            rw [decodable_cons]
            exact ⟨fun all => all.2, fun all => ⟨fun _ => ⟨ch, cl⟩, all⟩⟩
          rw [same, if_neg digits, unescaped_plain (.inr none)]
          refine ⟨fun good => ?_, fun bad => ?_⟩
          · rw [restGood good]
            rfl
          · rw [restBad bad]
            rfl
      · refine ⟨fun good => absurd ((decodable_cons.1 good).1 rfl).2 cl, fun _ => ?_⟩
        rw [urlDecode, if_pos rfl, bind_of_ok (hexValue_of_computable ch),
          hexValue_of_not_computable cl]
        rfl
    · refine ⟨fun good => absurd ((decodable_cons.1 good).1 rfl).1 ch, fun _ => ?_⟩
      rw [urlDecode, if_pos rfl, hexValue_of_not_computable ch]
      rfl

/-! ## A search and back -/

/-- What the decoder makes of a byte of a search. -/
def returned (c : UInt8) : Char := if c = 0x20 then '+' else byteChar c

theorem hexDigit_table : ∀ small, ∀ n, n < 16 →
    hexOf (hexDigit small n) = some n := by
  decide

set_option maxRecDepth 8000 in
theorem byteChar_table : ∀ n, n < 256 → byteChar (UInt8.ofNat n) = ' ' → UInt8.ofNat n = 0x20 := by
  decide

theorem eq_of_byteChar_space {b : UInt8} (space : byteChar b = ' ') : b = 0x20 := by
  have entry := byteChar_table b.toNat b.toNat_lt
  rw [UInt8.ofNat_toNat] at entry
  exact entry space

/-- The escape of one byte decodes to it, whatever is behind it. -/
theorem urlDecode_queryByte (small : Bool) (c : UInt8) (rest : Bytes) :
    urlDecode (queryByte small c ++ rest) =
      (urlDecode rest >>= fun t => pure (returned c :: t)) := by
  have one : ∀ b : UInt8, b ≠ 0x25 →
      urlDecode (b :: rest) = (urlDecode rest >>= fun t => pure (byteChar b :: t)) := by
    intro b plain
    match rest with
    | [] => rfl
    | [_] => rfl
    | _ :: _ :: _ => exact urlDecode_plain plain
  rw [queryByte, returned]
  by_cases space : c = 0x20
  · rw [if_pos space, if_pos space]
    exact one 0x2B (by decide)
  rw [if_neg space, if_neg space]
  by_cases plain : isUnreserved c = true
  · rw [if_pos plain]
    refine one c ?_
    rintro rfl
    exact absurd plain (by decide)
  · have size := c.toNat_lt
    have high := hexDigit_table small (c.toNat / 16) (by omega)
    have low := hexDigit_table small (c.toNat % 16) (by omega)
    have valueHigh := hexOf_eq (computable_of_hexOf high).1
    have valueLow := hexOf_eq (computable_of_hexOf low).1
    rw [high] at valueHigh
    rw [low] at valueLow
    have digitHigh := Option.ite_none_right_eq_some.mp valueHigh.symm
    have digitLow := Option.ite_none_right_eq_some.mp valueLow.symm
    have whole : c.toNat / 16 * 16 + c.toNat % 16 = c.toNat := Nat.div_add_mod' c.toNat 16
    rw [if_neg plain]
    show urlDecode (0x25 :: hexDigit small (c.toNat / 16) :: hexDigit small (c.toNat % 16) :: rest) =
      _
    rw [urlDecode_escape (computable_of_hexOf high).1 (computable_of_hexOf low).1,
      if_pos ⟨digitHigh.1, digitLow.1⟩, Option.some.inj digitHigh.2, Option.some.inj digitLow.2,
      whole]
    rfl

theorem urlDecode_query (small : Bool) (url : Bytes) :
    urlDecode (query small url) = .ok (url.map returned) := by
  induction url with
  | nil => rfl
  | cons c url ih =>
    rw [query, List.flatMap_cons, urlDecode_queryByte, ← query, ih]
    rfl

/-- A character past ASCII has more bytes than one. -/
theorem length_utf8_le (s : Text) : s.length ≤ (utf8 s).length := by
  induction s with
  | nil => exact Nat.le_refl 0
  | cons c s ih =>
    rw [← List.singleton_append, utf8_append, utf8_singleton, List.length_append,
      List.length_append, String.length_utf8EncodeChar]
    exact Nat.add_le_add c.utf8Size_pos ih

theorem ascii_of_length {s : Text} (same : (utf8 s).length = s.length) :
    ∀ c ∈ s, c.toNat < 128 := by
  induction s with
  | nil => exact fun c member => absurd member List.not_mem_nil
  | cons c s ih =>
    rw [← List.singleton_append, utf8_append, utf8_singleton, List.length_append,
      List.length_append, String.length_utf8EncodeChar, List.length_singleton] at same
    have rest := length_utf8_le s
    have size := c.utf8Size_pos
    intro d member
    rcases List.mem_cons.mp member with rfl | member
    · exact Nat.lt_succ_of_le (Char.utf8Size_eq_one_iff.mp (by omega))
    · exact ih (by omega) d member

/-- What comes back of a text: its own characters, if they are ASCII and none is a space. -/
theorem returned_utf8 (s : Text) :
    (utf8 s).map returned = s ↔ ∀ c ∈ s, c.toNat < 128 ∧ c ≠ ' ' := by
  constructor
  · intro same
    have ascii := ascii_of_length (s := s) (by
      rw [← List.length_map (f := returned), same])
    intro c member
    refine ⟨ascii c member, ?_⟩
    rintro rfl
    rw [← same] at member
    obtain ⟨b, _, space⟩ := List.mem_map.mp member
    rw [returned] at space
    split at space
    · exact absurd space (by decide)
    · next other => exact other (eq_of_byteChar_space space)
  · intro plain
    induction s with
    | nil => rfl
    | cons c s ih =>
      obtain ⟨ascii, notSpace⟩ := plain c List.mem_cons_self
      have value : (UInt8.ofNat c.toNat).toNat = c.toNat :=
        UInt8.toNat_ofNat_of_lt' (ascii.trans (by decide))
      have notSpaceByte : UInt8.ofNat c.toNat ≠ 0x20 := by
        intro is
        have same := congrArg UInt8.toNat is
        rw [value] at same
        exact notSpace (Char.toNat_inj.mp same)
      rw [← List.singleton_append, utf8_append, utf8_singleton, utf8EncodeChar_of_ascii ascii,
        List.map_append, ih fun d member => plain d (List.mem_cons_of_mem c member),
        List.map_singleton, returned, if_neg notSpaceByte, byteChar, value, Char.ofNat_toNat]

/-- Decoding undoes the escapes of the search for `s`, and takes the escapes of `t` out
without a fault. -/
def Decodes (s t : Text) (small : Bool) : Prop :=
  urlDecode (query small (utf8 s)) = .ok s ∧ urlDecode (utf8 t) = .ok (unescaped (utf8 t))

end RustyPenguin.Browser
